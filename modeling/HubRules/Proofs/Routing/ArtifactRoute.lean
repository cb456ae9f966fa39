import HubRules.Proofs.Routing.ArtifactRule

/-!
# Routes of artifacts

The rule of a pattern and the path of an artifact, both written by the helpers of one engine.
The path that httpd's rule is given has its references converted, and the rule takes it for a
path like any other. So its target is nginx's target converted, but for one case: on a direct
server the branch of a site is what stands before the next slash, and a lookup with a slash in
its input or default is cut there (`artifactRoute_samePath_iff`).
-/

namespace HubRules

open Reference Text

def RequestRule.toText (pattern path : Text) (tag? : Option Text) : Text :=
  pattern ++ ' ' :: (path ++ tag?.elim [] (' ' :: ·))

/-- The rule of a pattern and the path of an artifact. -/
def HelperScope.artifactRoute (scope : HelperScope) (kind : ArtifactKind) (pattern text : Text)
    (tag? : Option Text) : Except HelperError Text := do
  let path ← scope.artifactPath kind text
  scope.artifactRule (RequestRule.toText pattern path tag?)

/-- What stands before the first blank. -/
def firstWord (text : Text) : Text := text.takeWhile (· != ' ')

def isSiteJob (job : Text) : Bool :=
  job = "prediction-site".toList || job = "visualization-site".toList

/-- Whether a lookup in the branch of a site brings in a slash. -/
def JobPath.CutsLookup (table : RoutingTable) (parts : JobPath) : Prop :=
  isSiteJob parts.job ∧ Brings table '/' parts.branch

/-- Whether no text of the table holds the character. -/
def RoutingTable.Lacks (table : RoutingTable) (c : Char) : Prop :=
  ∀ entry ∈ table.entries, ∀ written ∈ entry.2.texts, c ∉ written

section

variable {config : Configuration} {table : RoutingTable} {captures : Captures} {parts : JobPath}
  {kind : ArtifactKind} {server? : Option Text} {text pattern path : Text} {tag? : Option Text}

/-! ## Words of rules -/

theorem firstWord_of_not_mem (h : ' ' ∉ text) : firstWord text = text :=
  List.takeWhile_eq_self_iff.2 (ne_of_not_mem h)

theorem exists_firstWord (h : ' ' ∈ text) :
    ∃ more, text = firstWord text ++ ' ' :: more ∧ ' ' ∉ firstWord text := by
  obtain ⟨first, more, rfl, hfirst⟩ := List.eq_append_cons_of_mem h
  have hword : firstWord (first ++ ' ' :: more) = first :=
    takeWhile_append_stop (ne_of_not_mem hfirst) (by simp)
  rw [hword]
  exact ⟨more, rfl, hfirst⟩

theorem firstWord_append {rest : Text} (h : ' ' ∈ text) :
    firstWord (text ++ rest) = firstWord text := by
  obtain ⟨more, htext, hfirst⟩ := exists_firstWord h
  rw [htext, List.append_assoc, List.cons_append]
  have hchars := ne_of_not_mem hfirst
  unfold firstWord at hchars ⊢
  rw [takeWhile_append_stop hchars (by simp), takeWhile_append_stop hchars (by simp)]

theorem arguments_toText (hpattern : ' ' ∉ pattern) (path : Text) (tag? : Option Text) :
    ∃ rest, RequestRule.arguments 3 (RequestRule.toText pattern path tag?)
        = pattern :: firstWord path :: rest
      ∧ (' ' ∉ path → rest = (tag?.elim [] (split ' ')).take 1) := by
  unfold RequestRule.arguments RequestRule.toText
  rw [split_append, split_of_not_mem hpattern]
  by_cases hblank : ' ' ∈ path
  · obtain ⟨more, hpath, hfirst⟩ := exists_firstWord hblank
    have hsplit : split ' ' (path ++ tag?.elim [] (' ' :: ·))
        = firstWord path :: split ' ' (more ++ tag?.elim [] (' ' :: ·)) := by
      calc split ' ' (path ++ tag?.elim [] (' ' :: ·))
          = split ' ' ((firstWord path ++ ' ' :: more) ++ tag?.elim [] (' ' :: ·)) := by rw [← hpath]
        _ = _ := by
          rw [List.append_assoc, List.cons_append, split_append, split_of_not_mem hfirst]
          rfl
    rw [hsplit]
    exact ⟨_, rfl, fun h => absurd hblank h⟩
  · rw [firstWord_of_not_mem hblank]
    cases tag? with
    | none =>
      rw [Option.elim_none, List.append_nil, split_of_not_mem hblank]
      exact ⟨_, rfl, fun _ => rfl⟩
    | some tag =>
      rw [Option.elim_some, split_append, split_of_not_mem hblank]
      exact ⟨_, rfl, fun _ => rfl⟩

theorem not_brings {c : Char} (h : table.Lacks c) : ¬Brings table c text := by
  rintro ⟨name, mapping, -, hget, written, hwritten, hc⟩
  obtain ⟨before, behind, hentries, -⟩ := List.lookup_eq_some_iff.1 hget
  exact h (String.ofList name, mapping) (by simp [hentries]) written hwritten hc

theorem JobPath.not_mem_of_not_mem {c : Char} (hparts : JobPath.read? text = some parts)
    (h : c ∉ text) : c ∉ parts.job ∧ c ∉ parts.branch ∧ c ∉ parts.file := by
  obtain ⟨-, -, ⟨htext, hfile⟩ | htext⟩ := JobPath.read?_eq_some hparts
  · rw [htext] at h
    rw [hfile]
    simp_all
  · rw [htext] at h
    simp_all

theorem JobPath.blank_not_mem_locate (hparts : JobPath.read? text = some parts) (h : ' ' ∉ text)
    (hserver : ∀ server ∈ server?, ' ' ∉ server) : ' ' ∉ parts.locate kind server? := by
  obtain ⟨hjob, hbranch, hfile⟩ := JobPath.not_mem_of_not_mem hparts h
  cases server? with
  | none => simp [JobPath.locate, JobPath.toText, hjob, hbranch, hfile]
  | some server =>
    have hstart : ' ' ∉ JobPath.jobStart kind := by cases kind <;> decide
    have hmiddle : ' ' ∉ "/job/".toList := by decide
    have hend : ' ' ∉ JobPath.fileStart kind := by cases kind <;> decide
    simp only [JobPath.locate, Option.elim_some, JobPath.below, List.mem_append, not_or]
    exact ⟨hserver server rfl, hstart, hjob, hmiddle, hbranch, hend, hfile⟩

theorem JobPath.isPlain_locate (hparts : JobPath.read? text = some parts) (htext : isPlain text)
    (hserver : ∀ server ∈ server?, isLiteral server) : isPlain (parts.locate kind server?) := by
  cases server? with
  | none => exact JobPath.isPlain_toText hparts htext
  | some server => exact (isPlain_literal (hserver server rfl)).2 (JobPath.isPlain_below hparts htext)

theorem not_mem_of_isLiteral {literal : Text} (h : isLiteral literal) : '$' ∉ literal := by
  intro hdollar
  simpa using List.all_eq_true.1 h '$' hdollar

/-- The first word of a path is converted as the path is, and is plain. -/
theorem firstWord_locate (kind : ArtifactKind) (hparts : JobPath.read? text = some parts)
    (htext : isPlain text) (hblank : ' ' ∉ text) (htable : table.isPlain) (hentries : table.Lacks ' ')
    (hserver : ∀ server ∈ server?, isLiteral server) :
    firstWord (toHttpd table (parts.locate kind server?))
        = toHttpd table (firstWord (parts.locate kind server?))
      ∧ isPlain (firstWord (parts.locate kind server?)) := by
  have hplain : isPlain (parts.locate kind server?) := JobPath.isPlain_locate hparts htext hserver
  -- a blank of the server ends the path before its first reference
  by_cases hwords : ∃ server ∈ server?, ' ' ∈ server
  · obtain ⟨server, rfl, hmem⟩ := hwords
    have hliteral := hserver server rfl
    obtain ⟨more, hsplit, -⟩ := exists_firstWord hmem
    have hfirst : isLiteral (firstWord server) := by
      rw [hsplit, isLiteral, List.all_append, Bool.and_eq_true] at hliteral
      exact hliteral.1
    simp only [JobPath.locate, Option.elim_some]
    rw [toHttpd_literal (not_mem_of_isLiteral hliteral), firstWord_append hmem, firstWord_append hmem]
    refine ⟨(replaceNamed_of_not_mem (not_mem_of_isLiteral hfirst)).symm, ?_⟩
    rw [← List.append_nil (firstWord server), isPlain_literal hfirst]
    rfl
  · have hpath : ' ' ∉ parts.locate kind server? :=
      JobPath.blank_not_mem_locate hparts hblank fun server hs hmem => hwords ⟨server, hs, hmem⟩
    have hconverted : ' ' ∉ toHttpd table (parts.locate kind server?) := by
      rw [mem_toHttpd_iff (.inl rfl) htable hplain]
      exact fun h => h.elim hpath (not_brings hentries)
    rw [firstWord_of_not_mem hpath, firstWord_of_not_mem hconverted]
    exact ⟨rfl, hplain⟩

/-! ## Direct servers -/

theorem JobPath.isPrefixOf_toText {job : Text} (hjob : '/' ∉ parts.job) (hslash : '/' ∉ job) :
    (job ++ ['/']).isPrefixOf parts.toText ↔ parts.job = job := by
  constructor
  · intro h
    obtain ⟨more, hmore⟩ := List.isPrefixOf_iff_prefix.1 h
    rw [List.append_assoc, List.singleton_append] at hmore
    have hcut : cut '/' parts.toText = some (job, more) := cut_eq_some_iff.2 ⟨hmore.symm, hslash⟩
    have hcut' : cut '/' parts.toText = some (parts.job, parts.branch ++ '/' :: parts.file) :=
      cut_eq_some_iff.2 ⟨rfl, hjob⟩
    rw [hcut] at hcut'
    exact (Prod.mk.inj (Option.some.inj hcut')).1.symm
  · intro heq
    subst heq
    refine List.isPrefixOf_iff_prefix.2 ⟨parts.branch ++ '/' :: parts.file, ?_⟩
    rw [List.append_assoc]
    rfl

/-- Neither engine finds a site in the path of another job. -/
theorem JobPath.sitePrefix?_of_not_site (hjob : '/' ∉ parts.job)
    (hsite : isSiteJob parts.job = false) :
    HelperScope.sitePrefix? parts.toText = none
      ∧ HelperScope.sitePrefix? (Reference.toHttpd table parts.toText) = none := by
  simp only [isSiteJob, Bool.or_eq_false_iff, decide_eq_false_iff_not] at hsite
  have hprediction : "prediction-site/".toList.isPrefixOf parts.toText = false :=
    Bool.eq_false_iff.2 fun h => hsite.1 ((JobPath.isPrefixOf_toText hjob (by decide)).1 h)
  have hvisualization : "visualization-site/".toList.isPrefixOf parts.toText = false :=
    Bool.eq_false_iff.2 fun h => hsite.2 ((JobPath.isPrefixOf_toText hjob (by decide)).1 h)
  refine ⟨sitePrefix?_of_no_start hprediction hvisualization, sitePrefix?_of_no_start ?_ ?_⟩
  · rw [isPrefixOf_toHttpd (by decide) (by decide), hprediction]
  · rw [isPrefixOf_toHttpd (by decide) (by decide), hvisualization]

theorem JobPath.toHttpd_site {site : Text} (hjob : parts.job = site ++ "-site".toList)
    (hsite : '$' ∉ site) :
    parts.toText = (site ++ "-site/".toList) ++ (parts.branch ++ '/' :: parts.file)
      ∧ Reference.toHttpd table parts.toText = (site ++ "-site/".toList)
        ++ (Reference.toHttpd table parts.branch ++ '/' :: Reference.toHttpd table parts.file) := by
  have hstart : ∀ rest : Text, (site ++ "-site".toList) ++ '/' :: rest
      = (site ++ "-site/".toList) ++ rest := by
    intro rest
    simp
  have hdollar : '$' ∉ parts.job := by
    rw [hjob, List.mem_append]
    exact fun h => h.elim hsite (by decide)
  rw [toHttpd_toText]
  unfold JobPath.toText JobPath.toHttpd
  simp only
  have hliteral : Reference.toHttpd table parts.job = parts.job := replaceNamed_of_not_mem hdollar
  rw [hliteral, hjob]
  exact ⟨hstart _, hstart _⟩

/-- In the path of a site with a branch both engines find the site; what httpd keeps of the
path begins behind the first slash of the converted branch. -/
theorem JobPath.sitePrefix?_of_site {site before kept : Text}
    (hsite : IsSite site) (hjob : parts.job = site ++ "-site".toList) (hslash : '/' ∉ parts.branch)
    (hbranch : parts.branch ≠ []) (hbefore : '/' ∉ before) (hkept : kept.head? = some '/')
    (hcut : Reference.toHttpd table parts.branch ++ '/' :: Reference.toHttpd table parts.file
      = before ++ kept) :
    HelperScope.sitePrefix? parts.toText
        = some (site, RoutingGroup.ofJob parts.job, '/' :: parts.file)
      ∧ HelperScope.sitePrefix? (Reference.toHttpd table parts.toText)
        = some (site, RoutingGroup.ofJob parts.job, kept) := by
  obtain ⟨htext, hhttpd⟩ := @JobPath.toHttpd_site table _ _ hjob hsite.dollar_not_mem
  have hstop : ∀ c ∈ kept.head?, (c != '/') = false := by
    intro c hc
    rw [hkept] at hc
    simpa using (Option.some.inj hc).symm
  -- a converted branch begins with a slash only if the branch does
  have hne : before ≠ [] := by
    intro heq
    subst heq
    have hhead : (Reference.toHttpd table parts.branch).head? = some '/' := by
      have hne : Reference.toHttpd table parts.branch ≠ [] := mt toHttpd_eq_nil_iff.1 hbranch
      obtain ⟨c, more, hmore⟩ := List.exists_cons_of_ne_nil hne
      rw [hmore] at hcut ⊢
      rw [← hkept, ← List.nil_append kept, ← hcut]
      rfl
    rw [head?_toHttpd (by decide) (by decide)] at hhead
    exact hslash (List.mem_of_head? hhead)
  rw [hhttpd, hcut, htext, HubRules.sitePrefix?_of_site hsite, HubRules.sitePrefix?_of_site hsite,
    takeWhile_append_stop (ne_of_not_mem hslash) (by simp),
    dropWhile_append_stop (ne_of_not_mem hslash) (by simp),
    takeWhile_append_stop (ne_of_not_mem hbefore) hstop,
    dropWhile_append_stop (ne_of_not_mem hbefore) hstop, hjob]
  simp [hbranch, hne]

theorem JobPath.sitePrefix?_of_no_branch {site : Text} (hsite : IsSite site)
    (hjob : parts.job = site ++ "-site".toList) (hbranch : parts.branch = []) :
    HelperScope.sitePrefix? parts.toText = none
      ∧ HelperScope.sitePrefix? (Reference.toHttpd table parts.toText) = none := by
  obtain ⟨htext, hhttpd⟩ := @JobPath.toHttpd_site table _ _ hjob hsite.dollar_not_mem
  rw [hhttpd, htext, hbranch, HubRules.sitePrefix?_of_site hsite,
    HubRules.sitePrefix?_of_site hsite]
  exact ⟨rfl, rfl⟩

theorem exists_site (h : isSiteJob parts.job) :
    ∃ site, IsSite site ∧ parts.job = site ++ "-site".toList := by
  simp only [isSiteJob, Bool.or_eq_true, decide_eq_true_eq] at h
  rcases h with h | h
  · exact ⟨_, .inl rfl, h⟩
  · exact ⟨_, .inr rfl, h⟩

/-- The first slash behind a converted branch is the one behind the branch, unless a lookup
brings one in. -/
theorem exists_cut (htable : table.isPlain) (hplain : isPlain parts.branch)
    (hslash : '/' ∉ parts.branch) :
    ∃ before kept, '/' ∉ before ∧ kept.head? = some '/'
      ∧ toHttpd table parts.branch ++ '/' :: toHttpd table parts.file = before ++ kept
      ∧ (¬Brings table '/' parts.branch → kept = '/' :: toHttpd table parts.file)
      ∧ (Brings table '/' parts.branch → ∃ behind,
        toHttpd table parts.branch = before ++ '/' :: behind
          ∧ kept = '/' :: (behind ++ '/' :: toHttpd table parts.file)) := by
  have hmem := mem_toHttpd_iff (.inr rfl) htable hplain
  by_cases hbrings : Brings table '/' parts.branch
  · obtain ⟨before, behind, hcut, hbefore⟩ := List.eq_append_cons_of_mem (hmem.2 (.inr hbrings))
    refine ⟨before, '/' :: (behind ++ '/' :: toHttpd table parts.file), hbefore, rfl, ?_,
      fun h => absurd hbrings h, fun _ => ⟨behind, hcut, rfl⟩⟩
    rw [hcut]
    simp
  · exact ⟨_, _, fun h => (hmem.1 h).elim hslash hbrings, rfl, rfl, fun _ => rfl,
      fun h => absurd h hbrings⟩

/-! ## Targets -/

theorem target_of_no_site (hsite : HelperScope.sitePrefix? path = none)
    (hsite' : HelperScope.sitePrefix? (toHttpd table path) = none) :
    toHttpd table (startPath true (toHttpd table path)) ++ keptPath true (toHttpd table path)
      = toHttpd table (startPath true path ++ keptPath true path) := by
  obtain ⟨hstart, hkept⟩ := startPath_of_no_site hsite
  obtain ⟨hstart', hkept'⟩ := startPath_of_no_site hsite'
  rw [hstart, hkept, hstart', hkept', isPrefixOf_toHttpd (by decide) (by decide)]
  split
  · exact (replaceNamed_cons (by decide)).symm
  · rfl

/-- The targets of a path on a direct server: httpd's is nginx's converted, unless the branch
of a site has a lookup that is cut. Then httpd keeps what is left of the lookup. -/
theorem direct_targets (htable : table.isPlain) (hplain : isPlain parts.branch)
    (hjob : '/' ∉ parts.job) (hslash : '/' ∉ parts.branch) :
    (¬parts.CutsLookup table →
      toHttpd table (startPath true (toHttpd table parts.toText))
          ++ keptPath true (toHttpd table parts.toText)
        = toHttpd table (startPath true parts.toText ++ keptPath true parts.toText))
      ∧ (parts.CutsLookup table → ∃ site before behind, IsSite site
          ∧ toHttpd table parts.branch = before ++ '/' :: behind
          ∧ startPath true parts.toText ++ keptPath true parts.toText
            = ("$hub/".toList ++ site) ++ '/' :: parts.file
          ∧ toHttpd table (startPath true (toHttpd table parts.toText))
              ++ keptPath true (toHttpd table parts.toText)
            = toHttpd table ("$hub/".toList ++ site)
              ++ '/' :: (behind ++ '/' :: toHttpd table parts.file)) := by
  cases hsite : isSiteJob parts.job with
  | false =>
    obtain ⟨hnone, hnone'⟩ := @JobPath.sitePrefix?_of_not_site table _ hjob hsite
    refine ⟨fun _ => target_of_no_site hnone hnone', fun h => ?_⟩
    exact absurd (hsite.symm.trans h.1) Bool.false_ne_true
  | true =>
    obtain ⟨site, hname, hsiteJob⟩ := exists_site hsite
    by_cases hbranch : parts.branch = []
    · obtain ⟨hnone, hnone'⟩ :=
        @JobPath.sitePrefix?_of_no_branch table _ _ hname hsiteJob hbranch
      refine ⟨fun _ => target_of_no_site hnone hnone', fun ⟨_, name, _, hmem, _⟩ => ?_⟩
      rw [hbranch] at hmem
      exact absurd hmem List.not_mem_nil
    · obtain ⟨before, kept, hbefore, hhead, hcut, hwhole, hpart⟩ := exists_cut htable hplain hslash
      obtain ⟨hsome, hsome'⟩ := JobPath.sitePrefix?_of_site hname hsiteJob hslash hbranch hbefore
        hhead hcut
      obtain ⟨hstart, hkept⟩ := startPath_of_site hsome
      obtain ⟨hstart', hkept'⟩ := startPath_of_site hsome'
      rw [hstart, hkept, hstart', hkept']
      constructor
      · intro hnot
        rw [hwhole fun h => hnot ⟨hsite, h⟩]
        exact (toHttpd_slash _ _).symm
      · rintro ⟨-, hbrings⟩
        obtain ⟨behind, hbranchCut, rfl⟩ := hpart hbrings
        exact ⟨site, before, behind, hname, hbranchCut, rfl, rfl⟩

theorem isPlain_target {direct : Bool} (h : isPlain path) :
    isPlain (startPath direct path ++ keptPath direct path) := by
  cases direct with
  | false => exact h
  | true =>
    cases hsite : HelperScope.sitePrefix? path with
    | none =>
      obtain ⟨hstart, hkept⟩ := startPath_of_no_site hsite
      rw [hstart, hkept]
      split
      · exact (isPlain_slash [] path).2 ⟨rfl, h⟩
      · exact h
    | some found =>
      obtain ⟨site, group, kept⟩ := found
      obtain ⟨hstart, hkept⟩ := startPath_of_site hsite
      obtain ⟨hname, -, ⟨branch, hpath⟩, hslash⟩ := sitePrefix?_eq_some hsite
      have hstop : ∀ c ∈ kept.head?, isNameChar c = false := by
        intro c hc
        rw [hslash c hc]
        decide
      rw [hpath, ← List.append_assoc, isPlain_append hstop] at h
      rw [hstart, hkept, isPlain_append hstop]
      exact ⟨hname.isPlain_hub, h.2⟩

theorem samePath_toHttpd (htable : table.isPlain) (hcaptures : captures.IsPlain)
    (htext : isPlain text) : SamePath table captures text (renumber (toHttpd table text)) := by
  unfold SamePath
  rw [unnumber_renumber (ClosesGroups.toHttpd htable htext).1,
    Httpd.evaluate_toHttpd htable hcaptures htext]

/-- No request comes to the same path if what is left of a lookup stands in httpd's target. -/
theorem not_samePath_of_cut {start branch before behind file : Text} (htable : table.isPlain)
    (hcaptures : captures.IsPlain) (hstart : isPlain start) (hbranch : isPlain branch)
    (hfile : isPlain file) (hcut : toHttpd table branch = before ++ '/' :: behind) :
    ¬SamePath table captures (start ++ '/' :: file)
      (renumber (toHttpd table start ++ '/' :: (behind ++ '/' :: toHttpd table file))) := by
  obtain ⟨value, hvalue⟩ :=
    ResumesAfterSlash.toHttpd htable hcaptures hbranch before behind hcut
  have hgroups := ClosesGroups.toHttpd htable hbranch
  rw [hcut, ← List.singleton_append] at hgroups
  have hslashGroups : ClosesGroups ['/'] := .of_not_mem (by decide)
  have hfree : ClosesGroups
      (toHttpd table start ++ (['/'] ++ (behind ++ (['/'] ++ toHttpd table file)))) :=
    .append (.toHttpd htable hstart) <| .append hslashGroups <| .append hgroups.of_append.of_append <|
      .append hslashGroups (.toHttpd htable hfile)
  have hslash : Httpd.Evaluates table captures ['/'] ['/'] := .literal (by decide) (by decide)
  have hhttpd := (Httpd.Evaluates.append (.toHttpd htable hcaptures hstart) <| .append hslash <|
    .append hvalue <| .append hslash (.toHttpd htable hcaptures hfile)).evaluate_eq
  have hnginx : Nginx.evaluate table captures (start ++ '/' :: file)
      = Nginx.evaluate table captures start ++ '/' :: Nginx.evaluate table captures file := by
    unfold Nginx.evaluate
    rw [replaceNamed_append (by simp [isNameChar]), replaceNamed_cons (by decide)]
  -- httpd's path has one slash and what is left of the lookup more than nginx's
  intro hsame
  unfold SamePath at hsame
  simp only [List.singleton_append] at hfree hhttpd
  rw [unnumber_renumber hfree.1, hhttpd, hnginx] at hsame
  have hlength := congrArg List.length hsame
  simp only [List.length_append, List.length_cons] at hlength
  omega

/-- On a direct server a request comes to the same path by both targets exactly if no lookup
is cut. -/
theorem samePath_direct_iff (hparts : JobPath.read? text = some parts) (htext : isPlain text)
    (htable : table.isPlain) (hcaptures : captures.IsPlain) :
    SamePath table captures (startPath true parts.toText ++ keptPath true parts.toText)
        (renumber (toHttpd table (startPath true (toHttpd table parts.toText))
          ++ keptPath true (toHttpd table parts.toText)))
      ↔ ¬parts.CutsLookup table := by
  obtain ⟨hjob, hslash, -⟩ := JobPath.read?_eq_some hparts
  obtain ⟨-, hbranch, hfile⟩ := JobPath.isPlain_parts hparts htext
  obtain ⟨hwhole, hpart⟩ := direct_targets htable hbranch hjob hslash
  by_cases hcuts : parts.CutsLookup table
  · obtain ⟨site, before, behind, hname, hcut, htarget, htarget'⟩ := hpart hcuts
    rw [htarget, htarget', iff_false_intro (not_not_intro hcuts), iff_false]
    exact not_samePath_of_cut htable hcaptures hname.isPlain_hub hbranch hfile hcut
  · rw [hwhole hcuts]
    exact iff_of_true (samePath_toHttpd htable hcaptures
      (isPlain_target (JobPath.isPlain_toText hparts htext))) hcuts

/-! ## Rules -/

theorem ofJob_of_site {site kept : Text} {group : RoutingGroup} (hjob : '/' ∉ parts.job)
    (hsite : HelperScope.sitePrefix? (toHttpd table parts.toText) = some (site, group, kept)) :
    group = RoutingGroup.ofJob parts.job := by
  cases hjobs : isSiteJob parts.job with
  | false =>
    rw [(JobPath.sitePrefix?_of_not_site hjob hjobs).2] at hsite
    exact absurd hsite (by simp)
  | true =>
    obtain ⟨site', hname, hsiteJob⟩ := exists_site hjobs
    rw [(JobPath.toHttpd_site hsiteJob hname.dollar_not_mem).2,
      HubRules.sitePrefix?_of_site hname] at hsite
    split at hsite
    · exact absurd hsite (by simp)
    · rw [hsiteJob]
      exact (Prod.mk.inj (Prod.mk.inj (Option.some.inj hsite)).2).1.symm

/-- Whether there is a rule does not change with the references of the path, and without a
direct server not with the tag. -/
theorem hasRule_toHttpd {tag tag' : Text} (h : config.isSet "jenkins_direct" → tag' = tag) :
    config.hasRule (toHttpd table path) tag' = config.hasRule path tag := by
  unfold Configuration.hasRule HelperScope.needsDirectRule
  rw [isPrefixOf_toHttpd (by decide) (by decide), isPrefixOf_toHttpd (by decide) (by decide)]
  cases hdirect : config.isSet "jenkins_direct" with
  | false => rfl
  | true => rw [h hdirect]

theorem artifactServer_of_direct (hdirect : config.isSet "jenkins_direct")
    (hserver : config.artifactServer = .ok server?) : server? = none := by
  simpa [Configuration.artifactServer, hdirect, eq_comm] using hserver

/-- The rules of both engines are read from one word, which for httpd is converted. In a direct
tree it is the whole path, and the tag is the same. -/
theorem arguments_route (kind : ArtifactKind) (tag? : Option Text) (hpattern : ' ' ∉ pattern)
    (hparts : JobPath.read? text = some parts) (htext : isPlain text) (hblank : ' ' ∉ text)
    (htable : table.isPlain) (hentries : table.Lacks ' ')
    (hserver : ∀ server ∈ server?, isLiteral server) :
    ∃ word rest rest', isPlain word
      ∧ RequestRule.arguments 3 (RequestRule.toText pattern (parts.locate kind server?) tag?)
        = pattern :: word :: rest
      ∧ RequestRule.arguments 3
          (RequestRule.toText pattern (toHttpd table (parts.locate kind server?)) tag?)
        = pattern :: toHttpd table word :: rest'
      ∧ (server? = none → word = parts.toText ∧ rest' = rest) := by
  obtain ⟨hword, hplain⟩ := firstWord_locate kind hparts htext hblank htable hentries hserver
  obtain ⟨rest, hargs, hrest⟩ := arguments_toText hpattern (parts.locate kind server?) tag?
  obtain ⟨rest', hargs', hrest'⟩ :=
    arguments_toText hpattern (toHttpd table (parts.locate kind server?)) tag?
  rw [hword] at hargs'
  refine ⟨_, rest, rest', hplain, hargs, hargs', ?_⟩
  intro heq
  subst heq
  have hone : ' ' ∉ parts.locate kind none := JobPath.blank_not_mem_locate hparts hblank (by simp)
  have hone' : ' ' ∉ toHttpd table (parts.locate kind none) := by
    rw [mem_toHttpd_iff (.inl rfl) htable (JobPath.isPlain_locate hparts htext (by simp))]
    exact fun h => h.elim hone (not_brings hentries)
  exact ⟨firstWord_of_not_mem hone, by rw [hrest hone, hrest' hone']⟩

end

/-- Both engines have a rule for an artifact, or neither has. By their targets every request
comes to the same path, unless the artifact is in a site on a direct server and a lookup in
its branch brings in a slash: then no request does. -/
theorem artifactRoute_samePath_iff (config : Configuration) (host : String) (kind : ArtifactKind)
    (pattern text : Text) (tag? : Option Text) (parts : JobPath) (table : RoutingTable)
    (hhost : config.text "jenkins_host" = .ok host)
    (hserver : config.isSet "jenkins_direct" = false → ∃ server,
      config.text "jenkins_path" = .ok server ∧ isLiteral server.toList)
    (hparts : JobPath.read? text = some parts)
    (htable : config.routingTable (RoutingGroup.ofJob parts.job) = .ok table)
    (hpattern : ' ' ∉ pattern) (hblank : ' ' ∉ text) (hblanks : table.Lacks ' ')
    (htext : isPlain text) (hentries : table.isPlain) :
    ∃ rn rh, (HelperScope.mk config .nginx).artifactRoute kind pattern text tag? = .ok rn
      ∧ (HelperScope.mk config .httpd).artifactRoute kind pattern text tag? = .ok rh
      ∧ (rn = [] ∧ rh = []
        ∨ ∃ p q, PairedRules pattern (config.ruleOrigin host) rn rh p q
          ∧ ∀ captures : Captures, captures.IsPlain → (SamePath table captures p q
            ↔ ¬(config.isSet "jenkins_direct" ∧ parts.CutsLookup table))) := by
  obtain ⟨hjob, -, -⟩ := JobPath.read?_eq_some hparts
  obtain ⟨server?, hpath, hliteral⟩ := artifactServer_eq (fun server => isLiteral server) hserver
  have hnginx : (HelperScope.mk config .nginx).artifactPath kind text = _ :=
    artifactPath_eq hpath (jobPath_nginx hparts)
  have hhttpd : (HelperScope.mk config .httpd).artifactPath kind text = _ :=
    artifactPath_httpd hparts htable hpath fun server h => not_mem_of_isLiteral (hliteral server h)
  obtain ⟨word, rest, rest', hplain, hargs, hargs', hone⟩ :=
    arguments_route kind tag? hpattern hparts htext hblank hentries hblanks hliteral
  -- a direct tree has no server, so that both engines look for a site in the whole path
  have hdirectPath : config.isSet "jenkins_direct" → word = parts.toText ∧ rest' = rest :=
    fun hdirect => hone (artifactServer_of_direct hdirect hpath)
  have hrule : config.hasRule (toHttpd table word) (rest'.headD [])
      = config.hasRule word (rest.headD []) :=
    hasRule_toHttpd fun hdirect => by rw [(hdirectPath hdirect).2]
  have hgroup : ∀ site group kept,
      HelperScope.sitePrefix? (toHttpd table word) = some (site, group, kept) →
        config.isSet "jenkins_direct" → config.routingTable group = .ok table := by
    intro site group kept hsite hdirect
    rw [(hdirectPath hdirect).1] at hsite
    rw [ofJob_of_site hjob hsite]
    exact htable
  unfold HelperScope.artifactRoute
  rw [hnginx, hhttpd]
  cases hhas : config.hasRule word (rest.headD []) with
  | false =>
    exact ⟨[], [], artifactRule_of_not_hasRule hargs hhas,
      artifactRule_of_not_hasRule hargs' (hrule.trans hhas), .inl ⟨rfl, rfl⟩⟩
  | true =>
    obtain ⟨rn, rh, hrn, hrh, hpaired⟩ := artifactRule_paired hargs hargs' hhas (hrule.trans hhas)
      ruleTarget_nginx (ruleTarget_httpd hgroup) hhost
    refine ⟨rn, rh, hrn, hrh, .inr ⟨_, _, hpaired, fun captures hcaptures => ?_⟩⟩
    cases hdirect : config.isSet "jenkins_direct" with
    | false =>
      refine iff_of_true ?_ (by simp)
      exact samePath_toHttpd hentries hcaptures hplain
    | true =>
      rw [(hdirectPath hdirect).1, samePath_direct_iff hparts htext hentries hcaptures]
      simp

/-- A configuration with a direct server, whose prediction branches have a slash in their
default. -/
def slashConfiguration : Configuration := ⟨[
  ("jenkins_host", .string "h"), ("jenkins_path", .string "/j"),
  ("jenkins_direct", .string "http://d/"),
  ("hub_mapping", .object [("prediction", .object [("branch", .object [
    ("input", .string "$organization"), ("default", .string "feature/x"),
    ("output", .object [])])])])]⟩

def slashTable : RoutingTable := ⟨.prediction, [("branch",
  ⟨"$organization", some "feature/x", []⟩)]⟩

theorem slashTable_lacks_blank : slashTable.Lacks ' ' := by
  unfold RoutingTable.Lacks slashTable Mapping.texts
  decide

theorem cutsLookup_branch :
    (JobPath.mk "prediction-site".toList "$branch".toList "index.html".toList).CutsLookup
      slashTable :=
  ⟨by decide, "branch".toList, ⟨"$organization", some "feature/x", []⟩, by decide, rfl,
    "feature/x".toList, by decide, by decide⟩

/-- With a slash in the default, no request comes to the same path. -/
theorem artifactRoute_samePath_iff_slash :
    ∃ rn rh p q, (HelperScope.mk slashConfiguration .nginx).artifactRoute .report "^/p$".toList
        "prediction-site/$branch/index.html".toList none = .ok rn
      ∧ (HelperScope.mk slashConfiguration .httpd).artifactRoute .report "^/p$".toList
        "prediction-site/$branch/index.html".toList none = .ok rh
      ∧ PairedRules "^/p$".toList [] rn rh p q
      ∧ ∀ captures : Captures, captures.IsPlain → ¬SamePath slashTable captures p q := by
  obtain ⟨rn, rh, hrn, hrh, hrules⟩ := artifactRoute_samePath_iff slashConfiguration "h" .report
    "^/p$".toList "prediction-site/$branch/index.html".toList none
    ⟨"prediction-site".toList, "$branch".toList, "index.html".toList⟩ slashTable
    rfl (fun h => absurd h (by decide)) (by decide) rfl (by decide) (by decide)
    slashTable_lacks_blank (by decide) (by decide)
  rcases hrules with ⟨rfl, -⟩ | ⟨p, q, hpaired, hsame⟩
  · have hrule : (HelperScope.mk slashConfiguration .nginx).artifactRoute .report "^/p$".toList
        "prediction-site/$branch/index.html".toList none
          = .ok "rewrite ^/p$ $hub/prediction/index.html break;".toList := rfl
    rw [hrule] at hrn
    exact absurd (Except.ok.inj hrn) (by decide)
  · refine ⟨rn, rh, p, q, hrn, hrh, hpaired, fun captures hcaptures h => ?_⟩
    exact (hsame captures hcaptures).1 h ⟨by decide, cutsLookup_branch⟩

/-- A direct server, a site and a default with a slash: httpd keeps the end of the lookup. -/
theorem artifactRoute_cuts_lookup :
    let captures : Captures := fun _ => "ictu".toList
    captures.IsPlain
      ∧ ∃ rn rh p q, (HelperScope.mk slashConfiguration .nginx).artifactRoute .report
          "^/p$".toList "prediction-site/$branch/index.html".toList none = .ok rn
        ∧ (HelperScope.mk slashConfiguration .httpd).artifactRoute .report
          "^/p$".toList "prediction-site/$branch/index.html".toList none = .ok rh
        ∧ PairedRules "^/p$".toList [] rn rh p q
        ∧ Nginx.evaluate slashTable captures p = "ictu/prediction/index.html".toList
        ∧ Httpd.evaluate slashTable captures (unnumber q)
          = "ictu/prediction/x\x7d/index.html".toList
        ∧ ¬SamePath slashTable captures p q := by
  have hplain : ∀ c ∈ "ictu".toList, isReserved c = false := by decide
  exact ⟨fun _ => hplain, _, _, "$hub/prediction/index.html".toList,
    "%\x7bENV:MATCH_HUB\x7d/prediction/x\x7d/index.html".toList, rfl, rfl,
    ⟨by decide, by decide⟩, by decide, by decide, by unfold SamePath; decide⟩

end HubRules
