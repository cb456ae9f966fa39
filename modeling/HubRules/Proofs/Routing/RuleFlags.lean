import HubRules.Proofs.Outcome
import HubRules.Proofs.Routing.ArtifactRoute
import HubRules.Proofs.Routing.ProxyRule

/-!
# Flags of rules

The flags of a rule are written in brackets with commas between them, as they are in the text that
it is read from. A rule takes the flags of its text and adds one of its own
(`flags_kept_iff`). Brackets with nothing between them hold an empty flag and not none, so that a
rule keeps the flags of its text exactly if there is one.
-/

namespace HubRules

open Outcome Text

namespace RequestRule

variable {pattern path target : Text} {flags : List Text}

/-- Flags in brackets. -/
def tag (flags : List Text) : Text := '[' :: (join [','] flags ++ [']'])

/-- The flags of an httpd rule: behind its last blank, between brackets and parted by commas. -/
def flags? (rule : Text) : Option (List Text) := do
  let (ending, _) ← cut ' ' rule.reverse
  let rest ← dropStart? ['['] ending.reverse
  let inner ← dropEnding? [']'] rest
  return split ',' inner

/-! ## Reading tags -/

theorem not_mem_tag {c : Char} (hsigns : c ∉ "[,]".toList) (h : ∀ flag ∈ flags, c ∉ flag) :
    c ∉ tag flags := by
  have hcomma : c ≠ ',' := fun heq => hsigns (by rw [heq]; decide)
  intro hmem
  rcases List.mem_cons.1 hmem with rfl | hmem
  · exact hsigns (by decide)
  · rcases List.mem_append.1 hmem with hmem | hmem
    · rcases mem_of_mem_join hmem with heq | ⟨flag, hflag, hc⟩
      · exact hcomma heq
      · exact h flag hflag hc
    · exact hsigns (by rw [List.mem_singleton.1 hmem]; decide)

theorem readFlags_tag (flags : List Text) : readFlags (tag flags) = split ',' (join [','] flags) := by
  simp [readFlags, tag]

theorem readFlags_tag_iff (h : ∀ flag ∈ flags, ',' ∉ flag) :
    readFlags (tag flags) = flags ↔ flags ≠ [] := by
  rw [readFlags_tag]
  constructor
  · rintro heq rfl
    exact split_ne_nil _ _ heq
  · exact fun hne => split_join hne h

theorem exists_httpd_eq_append_tag (pattern path : Text) (flags : List Text) :
    ∃ before, httpd pattern path flags = before ++ ' ' :: tag flags := by
  have hopen : " [".toList = [' ', '['] := rfl
  rw [httpd_eq_append, hopen, ← List.append_assoc]
  exact ⟨_, rfl⟩

theorem flags?_httpd (h : ∀ flag ∈ flags, ' ' ∉ flag) :
    flags? (httpd pattern path flags) = some (split ',' (join [','] flags)) := by
  obtain ⟨before, hrule⟩ := exists_httpd_eq_append_tag pattern path flags
  have hreverse : (before ++ ' ' :: tag flags).reverse
      = (tag flags).reverse ++ ' ' :: before.reverse := by
    simp
  have hblank : ' ' ∉ (tag flags).reverse := by
    rw [List.mem_reverse]
    exact not_mem_tag (by decide) h
  have htag : tag flags = ['['] ++ (join [','] flags ++ [']']) := rfl
  unfold flags?
  rw [hrule, hreverse, cut_eq_some_iff.2 ⟨rfl, hblank⟩]
  simp only [Option.bind_eq_bind, Option.bind_some, List.reverse_reverse, htag,
    dropStart?_append, dropEnding?_append, Option.pure_def]

/-- A rule that adds a flag to those of a tag keeps them if there are any. -/
theorem flags?_httpd_tag_iff {last : Text} (hlast : ',' ∉ last ∧ ' ' ∉ last)
    (h : ∀ flag ∈ flags, ',' ∉ flag ∧ ' ' ∉ flag) :
    flags? (httpd pattern path (readFlags (tag flags) ++ [last])) = some (flags ++ [last])
      ↔ flags ≠ [] := by
  have htag : ' ' ∉ tag flags := not_mem_tag (by decide) fun flag hflag => (h flag hflag).2
  have hcomma : ∀ flag ∈ readFlags (tag flags) ++ [last], ',' ∉ flag := by
    intro flag hflag
    rcases List.mem_append.1 hflag with hflag | hflag
    · rw [readFlags_tag] at hflag
      exact not_mem_of_mem_split hflag
    · rw [List.mem_singleton.1 hflag]
      exact hlast.1
  rw [flags?_httpd (blank_not_mem_flags htag hlast.2), split_join (by simp) hcomma,
    Option.some.injEq, List.append_left_inj]
  exact readFlags_tag_iff fun flag hflag => (h flag hflag).1

theorem arguments_tag (hpattern : ' ' ∉ pattern) (htarget : ' ' ∉ target)
    (h : ∀ flag ∈ flags, ' ' ∉ flag) :
    arguments 3 (toText pattern target (some (tag flags))) = [pattern, target, tag flags] := by
  obtain ⟨rest, hargs, hrest⟩ := arguments_toText hpattern target (some (tag flags))
  have htag : ' ' ∉ tag flags := not_mem_tag (by decide) h
  rw [hargs, hrest htarget, firstWord_of_not_mem htarget, Option.elim_some, split_of_not_mem htag]
  rfl

end RequestRule

namespace HelperScope

variable (scope : HelperScope)

/-- The flag that a rule for artifacts adds: the direct server's tree is the end of a request,
and the job server is a proxy. -/
def artifactFlag : Text := if scope.servesDirectly then "END".toList else ['P']

/-- What a rule for artifacts reads besides its text: where its path lies on the direct server, or
the host of the job server. -/
def artifactSource (path : Text) : Except HelperError Text :=
  if scope.servesDirectly then scope.directPath path else scope.configText "jenkins_host"

/-- A rule for artifacts takes the flags of its tag and adds its own. -/
theorem artifactRule_tag {config : Configuration} {text pattern path tag : Text}
    (hargs : RequestRule.arguments 3 text = [pattern, path, tag]) (htag : tag ≠ []) :
    SameOutcome (fun rule _ => ∃ target, rule = RequestRule.httpd pattern target
        (RequestRule.readFlags tag ++ [(HelperScope.mk config .httpd).artifactFlag]))
      ((HelperScope.mk config .httpd).artifactRule text)
      ((HelperScope.mk config .httpd).artifactSource path) := by
  unfold artifactRule artifactFlag artifactSource
  rw [hargs]
  cases hdirect : (HelperScope.mk config .httpd).servesDirectly with
  | true =>
    have hneeds : needsDirectRule path tag = true := by simp [needsDirectRule, htag]
    simp only [List.headD_cons, hneeds, if_true]
    cases (HelperScope.mk config .httpd).directPath path with
    | error cause => exact .error cause
    | ok target => exact .ok ⟨target, rfl⟩
  | false =>
    simp only [List.headD_cons, Bool.false_eq_true, if_false]
    cases (HelperScope.mk config .httpd).configText "jenkins_host" with
    | error cause => exact .error cause
    | ok host => exact .ok ⟨_, rfl⟩

end HelperScope

open RequestRule

/-- A rule for httpd that is read from a pattern, a target and flags in brackets has these flags
and one more behind them, exactly if there are any: a rule to a proxy has `P`, and a rule for
artifacts `END` on a direct server and `P` otherwise. The first one can always be written, the
second one as soon as its path lies somewhere on the direct server or the job server has a host. -/
theorem flags_kept_iff (config : Configuration) (pattern target : Text) (flags : List Text)
    (hpattern : ' ' ∉ pattern) (htarget : ' ' ∉ target)
    (hflags : ∀ flag ∈ flags, ',' ∉ flag ∧ ' ' ∉ flag) :
    let scope := HelperScope.mk config .httpd
    let text := RequestRule.toText pattern target (some (tag flags))
    (∃ rule, scope.proxyRule text = .ok rule
        ∧ (flags? rule = some (flags ++ [['P']]) ↔ flags ≠ []))
      ∧ SameOutcome (fun rule _ => flags? rule = some (flags ++ [scope.artifactFlag]) ↔ flags ≠ [])
        (scope.artifactRule text) (scope.artifactSource target) := by
  intro scope text
  have hargs : arguments 3 text = [pattern, target, tag flags] :=
    arguments_tag hpattern htarget fun flag hflag => (hflags flag hflag).2
  refine ⟨⟨_, proxyRule_httpd hargs, flags?_httpd_tag_iff (by decide) hflags⟩, ?_⟩
  refine (HelperScope.artifactRule_tag hargs (List.cons_ne_nil _ _)).mono ?_
  rintro rule _ ⟨path, rfl⟩
  refine flags?_httpd_tag_iff ?_ hflags
  unfold HelperScope.artifactFlag
  split <;> decide

/-- Two flags on a direct server, where the rule for artifacts adds `END`. -/
theorem flags_kept_iff_two :
    (∀ flag ∈ ["NE".toList, "QSA".toList], ',' ∉ flag ∧ ' ' ∉ flag)
      ∧ (∃ rule, (HelperScope.mk slashConfiguration .httpd).proxyRule
          "^/p$ prediction/x [NE,QSA]".toList = .ok rule
        ∧ flags? rule = some ["NE".toList, "QSA".toList, ['P']])
      ∧ ∃ rule, (HelperScope.mk slashConfiguration .httpd).artifactRule
          "^/p$ prediction/x [NE,QSA]".toList = .ok rule
        ∧ flags? rule = some ["NE".toList, "QSA".toList, "END".toList] := by
  have hflags : ∀ flag ∈ ["NE".toList, "QSA".toList], ',' ∉ flag ∧ ' ' ∉ flag := by decide
  obtain ⟨⟨rule, hrule, hkept⟩, hsame⟩ := flags_kept_iff slashConfiguration "^/p$".toList
    "prediction/x".toList _ (by decide) (by decide) hflags
  have hsource : (HelperScope.mk slashConfiguration .httpd).artifactSource "prediction/x".toList
      = .ok "/prediction/x".toList := rfl
  rw [hsource] at hsame
  obtain ⟨artifactRule, hartifact, hkept'⟩ := hsame.exists_ok
  exact ⟨hflags, ⟨rule, hrule, hkept.2 (by decide)⟩, artifactRule, hartifact,
    hkept'.2 (by decide)⟩

/-- Brackets without flags give a rule an empty flag. -/
theorem empty_tag_adds_flag :
    let proxyRule := "RewriteCond %\x7bREQUEST_URI\x7d ^/x$\n    RewriteRule ^ http://h/ [,P]".toList
    let artifactRule :=
      "RewriteCond %\x7bREQUEST_URI\x7d ^/x$\n    RewriteRule ^ http://h:8080/ [,P]".toList
    (HelperScope.mk hostConfiguration .httpd).proxyRule "^/x$ http://h/ []".toList = .ok proxyRule
      ∧ (HelperScope.mk hostConfiguration .httpd).artifactRule "^/x$ / []".toList
        = .ok artifactRule
      ∧ flags? proxyRule = some [[], ['P']] ∧ flags? proxyRule ≠ some ([] ++ [['P']])
      ∧ flags? artifactRule = some [[], ['P']] ∧ flags? artifactRule ≠ some ([] ++ [['P']]) :=
  ⟨rfl, rfl, by decide, by decide, by decide, by decide⟩

end HubRules
