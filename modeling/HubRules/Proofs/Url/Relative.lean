import HubRules.Proofs.Url.Upstream

/-!
# Texts that are resolved against a host

A text that names no server of its own keeps scheme, host and port number of the URL that it is
resolved against (`isOn_of_join`). One that names a server is read as if there was no such URL
(`ownUrl?_of_join`). So what a text is resolved to is on the same server exactly if the URL that it
stands for by itself is (`isOn_iff_of_join`). A host is read from its name alone
(`parse_ofHost`), and a path below it from a text that begins with neither slash nor sign
(`readRelative_path`), or with one slash (`readRelative_slash`).
-/

namespace HubRules

open Text

namespace Url

/-- Whether two URLs have the same scheme, host and port number. -/
def IsOn (url base : Url) : Prop :=
  url.scheme = base.scheme ∧ url.host = base.host ∧ url.port = base.port

def leadingSlashes (text : Text) : Nat := (text.takeWhile (isSlash true)).length

/-- Whether a text names a server: it has another scheme, or two slashes stand in front of a
host. -/
def namesServer (scheme text : Text) : Bool :=
  match readScheme (clean text) with
  | some (own, rest) => own != scheme || leadingSlashes rest ≥ 2
  | none => leadingSlashes (clean text) ≥ 2

/-- The URL that a text stands for by itself, if it names a server. A text without a scheme takes
the given one. -/
def ownUrl? (scheme text : Text) : Option Url :=
  if namesServer scheme text then
    (parse (if (readScheme (clean text)).isSome then text
      else scheme ++ ':' :: clean text)).toOption
  else none

variable {base url : Url} {text : Text}

/-! ## Relative texts -/

@[simp] theorem leadingSlashes_nil : leadingSlashes [] = 0 := rfl

@[simp] theorem leadingSlashes_cons (c : Char) (cs : Text) :
    leadingSlashes (c :: cs) = if isSlash true c then leadingSlashes cs + 1 else 0 := by
  cases hc : isSlash true c <;> simp [leadingSlashes, hc]

theorem isSlash_of_readAuthority {scheme : Text} (hspecial : isSpecialScheme scheme)
    (h : readAuthority scheme text = .ok url) : ∀ c ∈ text.head?, isSlash true c = false := by
  intro c hc
  cases text with
  | nil => cases hc
  | cons d ds =>
    obtain rfl : d = c := Option.some.inj hc
    rw [Bool.eq_false_iff]
    intro hslash
    have hends : endsAuthority true d = true := by
      rcases Bool.or_eq_true_iff.1 hslash with hd | hd
      · rw [beq_iff_eq.1 hd]
        rfl
      · rw [beq_iff_eq.1 (Bool.and_eq_true_iff.1 hd).2]
        rfl
    have hname : hostName true (d :: ds) = [] := by
      unfold hostName userAndHost
      rw [List.takeWhile_cons, hends]
      rfl
    rw [readAuthority_eq, hspecial, lacksHost, hname, Bool.true_and, List.isEmpty_nil,
      Bool.or_true, if_pos rfl] at h
    cases h

/-- Behind two slashes a host is read, and otherwise scheme, host and port number are kept. -/
theorem readRelative_cases (hspecial : isSpecialScheme base.scheme)
    (h : readRelative base text = .ok url) :
    (leadingSlashes text < 2 ∧ url.IsOn base)
      ∨ (leadingSlashes text ≥ 2
        ∧ readAuthority base.scheme (text.dropWhile (isSlash true)) = .ok url) := by
  unfold readRelative at h
  simp only [hspecial] at h
  split at h
  · obtain rfl := Except.ok.inj h
    exact .inl ⟨by simp, rfl, rfl, rfl⟩
  · obtain rfl := Except.ok.inj h
    exact .inl ⟨by simp [isSlash], rfl, rfl, rfl⟩
  · obtain rfl := Except.ok.inj h
    exact .inl ⟨by simp [isSlash], rfl, rfl, rfl⟩
  · next rest =>
    have hrest : rest.dropWhile (isSlash true) = rest := by
      have hfirst := isSlash_of_readAuthority hspecial h
      cases rest with
      | nil => rfl
      | cons c cs => rw [List.dropWhile_cons, hfirst c rfl]; rfl
    refine .inr ⟨by simp [isSlash], ?_⟩
    show readAuthority base.scheme (rest.dropWhile (isSlash true)) = _
    rw [hrest, h]
  · next c cs _ _ _ =>
    split at h
    · next hfirst =>
      split at h
      · next hsecond =>
        refine .inr ⟨?_, by rw [List.dropWhile_cons, if_pos hfirst, h]⟩
        cases cs with
        | nil => cases hsecond
        | cons d ds =>
          have hd : isSlash true d = true := hsecond
          simp [hfirst, hd]
      · next hsecond =>
        obtain rfl := Except.ok.inj h
        refine .inl ⟨?_, rfl, rfl, rfl⟩
        cases cs with
        | nil => simp [hfirst]
        | cons d ds =>
          have hd : isSlash true d = false := by simpa using hsecond
          simp [hfirst, hd]
    · next hfirst =>
      obtain rfl := Except.ok.inj h
      exact .inl ⟨by simp [hfirst], rfl, rfl, rfl⟩

/-! ## Resolving -/

theorem join_of_readScheme_none (hbase : base.IsNormal) (hread : readScheme (clean text) = none) :
    base.join text = readRelative base (clean text) := by
  obtain ⟨segments, hsegments, -⟩ := hbase.path
  unfold join read
  dsimp only
  rw [hread]
  dsimp only
  rw [hsegments]

theorem isOn_of_join (hbase : base.IsNormal) (hnames : namesServer base.scheme text = false)
    (h : base.join text = .ok url) : url.IsOn base := by
  have hspecial := isSpecialScheme_of_web hbase.scheme
  have hfile := ne_fileScheme_of_web hbase.scheme
  unfold namesServer at hnames
  cases hread : readScheme (clean text) with
  | none =>
    rw [hread] at hnames
    rw [join_of_readScheme_none hbase hread] at h
    have hslashes : leadingSlashes (clean text) < 2 := by simpa using hnames
    rcases readRelative_cases hspecial h with ⟨-, hon⟩ | ⟨hmany, -⟩
    · exact hon
    · omega
  | some found =>
    obtain ⟨own, rest⟩ := found
    rw [hread] at hnames
    obtain ⟨rfl, hslashes⟩ : own = base.scheme ∧ leadingSlashes rest < 2 := by simpa using hnames
    have hfew : decide ((rest.takeWhile (isSlash true)).length < 2) = true :=
      decide_eq_true hslashes
    unfold join read at h
    dsimp only at h
    rw [hread] at h
    dsimp only at h
    rw [if_neg hfile, if_pos hspecial, hfew] at h
    have hrelative : readRelative base rest = .ok url := by simpa using h
    rcases readRelative_cases hspecial hrelative with ⟨-, hon⟩ | ⟨hmany, -⟩
    · exact hon
    · omega

theorem parse_of_web {scheme rest : Text} (hscheme : IsWebScheme scheme)
    (hclean : clean (scheme ++ ':' :: rest) = scheme ++ ':' :: rest) :
    parse (scheme ++ ':' :: rest) = readAuthority scheme (rest.dropWhile (isSlash true)) := by
  unfold parse read
  dsimp only
  rw [hclean, (isNormalScheme_of_web hscheme).readScheme_append]
  dsimp only
  rw [if_neg (ne_fileScheme_of_web hscheme), if_pos (isSpecialScheme_of_web hscheme)]

theorem parse_of_slashes (hbase : base.IsNormal) (hread : readScheme (clean text) = none)
    (hslashes : leadingSlashes (clean text) ≥ 2) (h : base.join text = .ok url) :
    parse (base.scheme ++ ':' :: clean text) = .ok url := by
  have hstart : ∀ c ∈ base.scheme ++ [':'], 32 < c.toNat :=
    lt_of_mem_scheme_append (isNormalScheme_of_web hbase.scheme) (by simp)
  have hclean : clean (base.scheme ++ ':' :: clean text) = base.scheme ++ ':' :: clean text := by
    have := clean_append_clean (by simp) hstart text
    simpa using this
  rw [join_of_readScheme_none hbase hread] at h
  rw [parse_of_web hbase.scheme hclean]
  rcases readRelative_cases (isSpecialScheme_of_web hbase.scheme) h with ⟨hfew, -⟩ | ⟨-, hhost⟩
  · omega
  · exact hhost

/-- Nothing is taken from the base by a text with another scheme, or with two slashes behind its
scheme. -/
theorem join_of_readScheme_some {own rest : Text}
    (hread : readScheme (clean text) = some (own, rest))
    (hother : own ≠ base.scheme ∨ leadingSlashes rest ≥ 2) : base.join text = parse text := by
  have hnot : (decide ((rest.takeWhile (isSlash true)).length < 2)
      && decide (base.scheme = own)) = false := by
    rw [Bool.and_eq_false_iff, decide_eq_false_iff_not, decide_eq_false_iff_not]
    exact hother.symm.imp Nat.not_lt.2 Ne.symm
  unfold parse join read
  dsimp only
  rw [hread]
  dsimp only
  rw [if_neg (ne_true_of_eq_false hnot)]

theorem ownUrl?_of_join (hbase : base.IsNormal) (hnames : namesServer base.scheme text)
    (h : base.join text = .ok url) : ownUrl? base.scheme text = some url := by
  unfold ownUrl?
  rw [if_pos hnames]
  unfold namesServer at hnames
  cases hread : readScheme (clean text) with
  | none =>
    rw [hread] at hnames
    have hslashes : leadingSlashes (clean text) ≥ 2 := by simpa using hnames
    rw [Option.isSome_none, if_neg Bool.false_ne_true, parse_of_slashes hbase hread hslashes h]
    rfl
  | some found =>
    obtain ⟨own, rest⟩ := found
    rw [hread] at hnames
    have hother : own ≠ base.scheme ∨ leadingSlashes rest ≥ 2 := by simpa using hnames
    rw [Option.isSome_some, if_pos rfl, ← join_of_readScheme_some hread hother, h]
    rfl

/-- What a text is resolved to is on the server of the base exactly if the text names no server, or
a URL on this one. -/
theorem isOn_iff_of_join (hbase : base.IsNormal) (h : base.join text = .ok url) :
    url.IsOn base ↔ ∀ own ∈ ownUrl? base.scheme text, own.IsOn base := by
  cases hnames : namesServer base.scheme text with
  | false =>
    have hnone : ownUrl? base.scheme text = none := by
      rw [ownUrl?, hnames]
      rfl
    rw [hnone]
    exact ⟨by simp, fun _ => isOn_of_join hbase hnames h⟩
  | true =>
    rw [ownUrl?_of_join hbase hnames h]
    simp

theorem exists_pathText_of_isOn (hbase : base.IsNormal) (h : base.join text = .ok url)
    (hon : url.IsOn base) : ∃ more, url.pathText = '/' :: more := by
  have hweb : IsWebScheme url.scheme := by
    rw [hon.1]
    exact hbase.scheme
  have hstable : url.IsStable := by
    refine read_isStable (fun b hb => ?_) h
    obtain rfl := Option.some.inj hb
    exact ⟨isNormalScheme_of_web hbase.scheme, ne_fileScheme_of_web hbase.scheme,
      hbase.toIsNormalAuthority⟩
  obtain ⟨segments, hsegments, hpath⟩ := (hstable.isNormalAuthority (ne_fileScheme_of_web hweb)
    (isSpecialScheme_of_web hweb)).2.path
  exact ⟨_, (pathText_eq hsegments).trans
    (toText_segments (hpath.nonempty (isSpecialScheme_of_web hweb)))⟩

/-- A text that begins neither with a slash nor with the sign of a query or a fragment is read as
a path below the directory of the base. -/
theorem readRelative_path {c : Char} {cs : Text}
    (hfirst : c ≠ '#' ∧ c ≠ '?' ∧ isSlash (isSpecialScheme base.scheme) c = false)
    (htext : ∀ d ∈ c :: cs, d ≠ '?' ∧ d ≠ '#') :
    readRelative base (c :: cs) = .ok { base with
      path := .segments (readSegments (isSpecialScheme base.scheme) (base.scheme = fileScheme)
        (directory base.path) (c :: cs))
      query := none
      fragment := none } := by
  have hcut : cutPath (c :: cs) = (c :: cs, []) := by
    have := cutPath_append htext (show IsTail [] by simp [IsTail])
    simpa using this
  obtain ⟨hfragment, hquery, hslash⟩ := hfirst
  unfold readRelative
  dsimp only
  split
  · next heq => cases heq
  · next heq => exact absurd (List.cons.inj heq).1 hfragment
  · next heq => exact absurd (List.cons.inj heq).1 hquery
  · next heq =>
    rw [(List.cons.inj heq).1] at hslash
    cases hslash
  · next heq =>
    obtain ⟨rfl, rfl⟩ := List.cons.inj heq
    rw [if_neg (ne_true_of_eq_false hslash), hcut]
    rfl

theorem readRelative_slash {rest : Text}
    (hfirst : ∀ c ∈ rest.head?, isSlash (isSpecialScheme base.scheme) c = false)
    (htext : ∀ d ∈ rest, d ≠ '?' ∧ d ≠ '#') :
    readRelative base ('/' :: rest) = .ok { base with
      path := .segments (readSegments (isSpecialScheme base.scheme) (base.scheme = fileScheme)
        [] rest)
      query := none
      fragment := none } := by
  have hcut : cutPath rest = (rest, []) := by
    have := cutPath_append htext (show IsTail [] by simp [IsTail])
    simpa using this
  have hslash : ∀ special, isSlash special '/' = true := by
    intro special
    cases special <;> rfl
  have hone : ¬rest.head?.any (isSlash (isSpecialScheme base.scheme)) := by
    cases rest with
    | nil => exact Bool.false_ne_true
    | cons c cs => exact ne_true_of_eq_false (hfirst c rfl)
  unfold readRelative
  dsimp only
  split
  · next heq => cases heq
  · next heq => exact absurd (List.cons.inj heq).1 (by decide)
  · next heq => exact absurd (List.cons.inj heq).1 (by decide)
  · next more heq =>
    rw [(List.cons.inj heq).2] at hfirst
    exact absurd (hfirst '/' rfl) (by rw [hslash]; decide)
  · next heq =>
    obtain ⟨rfl, rfl⟩ := List.cons.inj heq
    rw [if_pos (hslash _), if_neg hone, hcut]
    rfl

/-! ## Hosts -/

def ofHost (name : Text) : Url :=
  ⟨"http".toList, [], [], some (.domain name), none, .segments [[]], none, none⟩

variable {name : Text}

theorem readAuthority_ofHost (h : (Host.domain name).IsNormal) :
    readAuthority "http".toList name = .ok (ofHost name) := by
  have hchars : ∀ c ∈ name, Host.isHostChar c := Host.isHostChar_of_mem_toText h
  have hinside : ∀ c ∈ name, (!endsAuthority true c) = true := by
    intro c hc
    rw [endsAuthority_of_isHostChar (hchars c hc)]
    rfl
  have hauthority : name.takeWhile (fun c => !endsAuthority true c) = name :=
    List.takeWhile_eq_self_iff.2 hinside
  have hbehind : name.dropWhile (fun c => !endsAuthority true c) = [] :=
    List.dropWhile_eq_nil_iff.2 hinside
  have hat : cutLastAt name = none :=
    cutLastAt_eq_none fun hmem => absurd (hchars _ hmem) (by decide)
  have hparts : userAndHost true name = ([], name) := by
    unfold userAndHost
    dsimp only
    rw [hauthority, hat]
    rfl
  have hname : hostName true name = name := by
    have := hostPart_toText (show (Host.domain name).IsNormalFor true from h) none
    rw [hostName, hparts]
    simpa [portText, Host.toText] using this
  have hafter : afterHost true name = [] := by
    rw [afterHost, hparts, hname, hbehind, List.drop_length]
    rfl
  have hlacks : lacksHost true name = false := by
    rw [lacksHost, hauthority, hat, hname, List.isEmpty_eq_false_iff.2 h.1]
    rfl
  have hhost : readHost true name = .ok (.domain name) := Host.ofSpecial_toText h
  have hdomain : Host.domain name ≠ .domain [] := by simpa using h.1
  rw [readAuthority_eq, show isSpecialScheme "http".toList = true from rfl, hlacks,
    if_neg Bool.false_ne_true, hname, hparts, hafter, hhost]
  show withHost "http".toList ([], []) (.domain name) [] = _
  simp only [withHost, hdomain]
  rfl

theorem parse_ofHost (h : (Host.domain name).IsNormal) :
    parse ("http://".toList ++ name) = .ok (ofHost name) := by
  have hscheme : IsNormalScheme "http".toList := isNormalScheme_of_web (.inl rfl)
  have hread := readAuthority_ofHost h
  have hslashes : ('/' :: '/' :: name).dropWhile (isSlash true) = name := by
    show (['/', '/'] ++ name).dropWhile (isSlash true) = name
    exact dropWhile_append_stop (by decide) (isSlash_of_readAuthority rfl hread)
  have hclean : clean ("http".toList ++ ':' :: '/' :: '/' :: name)
      = "http".toList ++ ':' :: '/' :: '/' :: name := by
    refine clean_of_all (lt_of_mem_scheme_append hscheme ?_)
    simp only [List.forall_mem_cons]
    exact ⟨by decide, by decide, fun c hc =>
      Host.lt_of_isHostChar (Host.isHostChar_of_mem_toText h c hc)⟩
  show parse ("http".toList ++ ':' :: '/' :: '/' :: name) = _
  rw [parse_of_web (.inl rfl) hclean, hslashes, hread]

end Url

end HubRules
