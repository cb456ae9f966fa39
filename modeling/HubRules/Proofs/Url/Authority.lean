import HubRules.Proofs.Url.Tail

/-!
# Authorities

A URL that is read from behind the two slashes of its scheme is of a normal form
(`readAuthority_isNormal`): user name, password, host, port number, path, query and fragment stay
as they are. Such a URL is read back from its text (`readAuthority_behindSlashes`).
-/

namespace HubRules

open Text

/-! ## Hosts -/

namespace Host

/-- The hosts that are read from texts where the scheme is not special. -/
def IsNormalFlat : Host → Prop
  | .domain name => Url.IsPlain (fun _ => false) name ∧ ∀ c ∈ name, isForbiddenInFlat c = false
  | .ipv4 _ => False
  | .ipv6 pieces => (Host.ipv6 pieces).IsNormal

/-- The hosts that are read from texts, for a special scheme or another one. -/
def IsNormalFor (special : Bool) (host : Host) : Prop :=
  if special then host.IsNormal else host.IsNormalFlat

theorem ofFlat_isNormal {text : Text} {host : Host} (h : ofFlat text = .ok host) :
    host.IsNormalFlat := by
  unfold ofFlat at h
  split at h
  · obtain ⟨pieces, inside, rfl, hinside⟩ := exists_of_bracketed h
    exact ipv6?_isNormal hinside
  · split at h
    · cases h
    · next hallowed =>
      obtain rfl := Except.ok.inj h
      have hsigns : ∀ c ∈ Url.byteSigns, isForbiddenInFlat c = false := by decide
      refine ⟨Url.isPlain_percentEncode (by unfold Url.IsPlain; decide) text, fun c hc => ?_⟩
      rcases Url.mem_percentEncode hc with hsign | ⟨hmem, -⟩
      · exact hsigns c hsign
      · exact Bool.eq_false_iff.2 fun hc => hallowed (List.any_eq_true.2 ⟨c, hmem, hc⟩)

theorem ofFlat_toText {host : Host} (h : host.IsNormalFlat) : ofFlat host.toText = .ok host := by
  cases host with
  | domain name =>
    obtain ⟨hplain, hallowed⟩ := h
    have hbracket : name.head? ≠ some '[' := fun hhead =>
      absurd (hallowed _ (List.mem_of_head? hhead)) (by decide)
    have hany : name.any isForbiddenInFlat = false := by
      rw [List.any_eq_false]
      intro c hc
      rw [hallowed c hc]
      exact Bool.false_ne_true
    show ofFlat name = _
    unfold ofFlat
    rw [if_neg hbracket, hany, Url.percentEncode_of_isPlain hplain]
    rfl
  | ipv4 address => exact absurd h (by simp [IsNormalFlat])
  | ipv6 pieces =>
    unfold ofFlat
    rw [if_pos (show (Host.ipv6 pieces).toText.head? = some '[' from rfl)]
    exact bracketed_toText h

/-- A character of a name outside brackets: none that ends it or stands behind a user. -/
def isNameChar (c : Char) : Bool := isHostChar c && !":[]".toList.contains c

theorem isNameChar_of_not_isForbidden {c : Char} (h : isForbidden c = false) : isNameChar c := by
  obtain ⟨hlow, hhigh, -, -⟩ := lt_of_not_isForbidden h
  exact of_ascii (p := fun c => isForbidden c = false → isNameChar c) (by decide) (by omega) h

theorem isNameChar_of_flat {c : Char} (hplain : Url.isPlain (fun _ => false) c)
    (h : isForbiddenInFlat c = false) : isNameChar c :=
  Url.of_isPlain (p := fun c => isForbiddenInFlat c = false → isNameChar c) (by decide) hplain h

theorem IsNormalFor.toText_cases {special : Bool} {host : Host} (h : host.IsNormalFor special) :
    (∀ c ∈ host.toText, isNameChar c)
      ∨ ∃ pieces, host = .ipv6 pieces ∧ (Host.ipv6 pieces).IsNormal := by
  unfold IsNormalFor at h
  cases host with
  | domain name =>
    refine .inl fun c hc => ?_
    split at h
    · exact isNameChar_of_not_isForbidden (h.2.1 c hc)
    · exact isNameChar_of_flat (h.1 c hc) (h.2 c hc)
  | ipv4 address => exact .inl fun c hc => isNameChar_of_not_isForbidden (isKept_of_mem_ipv4 hc).1
  | ipv6 pieces =>
    refine .inr ⟨pieces, rfl, ?_⟩
    split at h <;> exact h

theorem IsNormalFor.isHostChar_of_mem {special : Bool} {host : Host}
    (h : host.IsNormalFor special) :
    ∀ c ∈ host.toText, isHostChar c := by
  rcases h.toText_cases with hname | ⟨pieces, rfl, hpieces⟩
  · exact fun c hc => (Bool.and_eq_true_iff.1 (hname c hc)).1
  · exact isHostChar_of_mem_toText hpieces

end Host

namespace Url

/-! ## What a URL is read from -/

def readPort? (scheme text : Text) : Except UrlError (Option Nat × Text) :=
  match text with
  | ':' :: digits => readPort scheme digits
  | rest => .ok (none, rest)

def userAndHost (special : Bool) (text : Text) : Text × Text :=
  let authority := text.takeWhile fun c => !endsAuthority special c
  (cutLastAt authority).getD ([], authority)

def hostName (special : Bool) (text : Text) : Text := hostPart false (userAndHost special text).2

/-- What stands behind the name of a host. -/
def afterHost (special : Bool) (text : Text) : Text :=
  (userAndHost special text).2.drop (hostName special text).length
    ++ text.dropWhile fun c => !endsAuthority special c

/-- Whether there is nothing where a host should be. -/
def lacksHost (special : Bool) (text : Text) : Bool :=
  ((cutLastAt (text.takeWhile fun c => !endsAuthority special c)).isSome
      && (userAndHost special text).1.isEmpty && (userAndHost special text).2.isEmpty
      && !(text.dropWhile fun c => !endsAuthority special c).isEmpty)
    || (special && (hostName special text).isEmpty)

def readHost (special : Bool) (name : Text) : Except UrlError Host :=
  if special then Host.ofSpecial name else Host.ofFlat name

/-- The URL of a host and what stands behind its name. -/
def withHost (scheme : Text) (user : Text × Text) (host : Host) (text : Text) :
    Except UrlError Url :=
  if host = .domain [] && text.head? = some ':' then .error .emptyHost
  else (readPort? scheme text).bind fun (port, rest) =>
    if host = .domain [] && !(user.1.isEmpty && user.2.isEmpty) then .error .emptyHost
    else
      let (segments, tail) := readAbsolutePath (isSpecialScheme scheme) false rest
      .ok (withTail (isSpecialScheme scheme)
        ⟨scheme, user.1, user.2, some host, port, .segments segments, none, none⟩ tail)

theorem readPort?_of_ne {scheme text : Text} (h : text.head? ≠ some ':') :
    readPort? scheme text = .ok (none, text) := by
  unfold readPort?
  split
  · exact absurd rfl h
  · rfl

/-- An authority is read in steps: the host, the port number behind it and the path. -/
theorem readAuthority_eq (scheme text : Text) :
    readAuthority scheme text
      = if lacksHost (isSpecialScheme scheme) text then .error .emptyHost
        else (readHost (isSpecialScheme scheme) (hostName (isSpecialScheme scheme) text)).bind
          fun host => withHost scheme (readUser (userAndHost (isSpecialScheme scheme) text).1) host
            (afterHost (isSpecialScheme scheme) text) := by
  unfold readAuthority lacksHost readHost withHost afterHost hostName userAndHost
  simp only [bind, Except.bind, pure, Except.pure, throw, throwThe, MonadExceptOf.throw]
  -- with names for the parts, both sides are the same tests in the same order
  generalize isSpecialScheme scheme = special
  generalize (text.takeWhile fun c => !endsAuthority special c) = authority
  generalize (text.dropWhile fun c => !endsAuthority special c) = behind
  generalize (cutLastAt authority).getD ([], authority) = parts
  generalize parts.2.drop (hostPart false parts.2).length ++ behind = rest
  split
  · next hempty =>
    rw [hempty]
    rfl
  · next hempty =>
    rw [Bool.not_eq_true] at hempty
    rw [hempty, Bool.false_or]
    split
    · rfl
    · have hcolon : rest.head? ≠ some ':' → readPort? scheme rest = .ok (none, rest) :=
        readPort?_of_ne
      cases special <;> simp only [if_true, if_false, Bool.false_eq_true]
      all_goals
        split
        · rfl
        · split
          · rfl
          · split
            · rfl
            · next hne =>
              rw [hcolon fun hhead => ?_]
              cases rest with
              | nil => exact absurd hhead (by simp)
              | cons c cs => exact hne cs (by rw [Option.some.inj hhead])

theorem readHost_isNormal {special : Bool} {name : Text} {host : Host}
    (h : readHost special name = .ok host) : host.IsNormalFor special := by
  cases special with
  | false => exact Host.ofFlat_isNormal h
  | true => exact Host.ofSpecial_isNormal h

theorem readHost_toText {special : Bool} {host : Host} (h : host.IsNormalFor special) :
    readHost special host.toText = .ok host := by
  cases special with
  | false => exact Host.ofFlat_toText h
  | true => exact Host.ofSpecial_toText h

/-! ## What is read -/

theorem readPort_isNormal {scheme text rest : Text} {port : Option Nat}
    (h : readPort scheme text = .ok (port, rest)) :
    ∀ p ∈ port, p ≤ 65535 ∧ defaultPort scheme ≠ some p := by
  unfold readPort at h
  simp only at h
  generalize (Host.numberOfBase 10 (text.takeWhile Char.isDigit)).getD 0 = value at h
  have hkept : value ≤ 65535 →
      ∀ p ∈ (if (text.takeWhile Char.isDigit).isEmpty || defaultPort scheme = some value
        then none else some value), p ≤ 65535 ∧ defaultPort scheme ≠ some p := by
    intro hsmall p hp
    split at hp
    · exact absurd hp (by simp)
    · next hnot =>
      obtain rfl := Option.some.inj hp
      simp only [Bool.or_eq_true, decide_eq_true_eq, not_or] at hnot
      exact ⟨hsmall, hnot.2⟩
  split at h
  · exact absurd h (by simp)
  · next hlarge =>
    split at h
    · split at h
      · obtain ⟨rfl, -⟩ := Prod.mk.inj (Except.ok.inj h)
        exact hkept (by omega)
      · exact absurd h (by simp)
    · obtain ⟨rfl, -⟩ := Prod.mk.inj (Except.ok.inj h)
      exact hkept (by omega)

theorem readPort?_isNormal {scheme text rest : Text} {port : Option Nat}
    (h : readPort? scheme text = .ok (port, rest)) :
    ∀ p ∈ port, p ≤ 65535 ∧ defaultPort scheme ≠ some p := by
  unfold readPort? at h
  split at h
  · exact readPort_isNormal h
  · obtain ⟨rfl, -⟩ := Prod.mk.inj (Except.ok.inj h)
    simp

theorem isPlain_inUser_byteSigns : IsPlain inUser byteSigns := by
  unfold IsPlain
  decide

theorem readUser_isPlain (text : Text) :
    IsPlain inUser (readUser text).1 ∧ IsPlain inUser (readUser text).2 := by
  unfold readUser
  split
  · exact ⟨isPlain_percentEncode isPlain_inUser_byteSigns _,
      isPlain_percentEncode isPlain_inUser_byteSigns _⟩
  · exact ⟨isPlain_percentEncode isPlain_inUser_byteSigns _, by simp [IsPlain]⟩

/-- A URL with an authority that stays as it is. A host without a name has neither user nor port
number. -/
structure IsNormalAuthority (url : Url) : Prop where
  username : IsPlain inUser url.username
  password : IsPlain inUser url.password
  host : ∃ host, url.host = some host ∧ host.IsNormalFor (isSpecialScheme url.scheme)
    ∧ (host = .domain [] → url.username = [] ∧ url.password = [] ∧ url.port = none)
  port : ∀ port ∈ url.port, port ≤ 65535 ∧ defaultPort url.scheme ≠ some port
  path : ∃ segments, url.path = .segments segments
    ∧ IsNormalPath (isSpecialScheme url.scheme) false segments
  tail : IsNormalTail (isSpecialScheme url.scheme) url.query url.fragment

theorem withHost_eq_ok {scheme text : Text} {user : Text × Text} {host : Host} {url : Url}
    (h : withHost scheme user host text = .ok url) :
    ∃ port rest, readPort? scheme text = .ok (port, rest)
      ∧ (host = .domain [] → text.head? ≠ some ':' ∧ user.1 = [] ∧ user.2 = [])
      ∧ url = withTail (isSpecialScheme scheme) ⟨scheme, user.1, user.2, some host, port,
          .segments (readAbsolutePath (isSpecialScheme scheme) false rest).1, none, none⟩
        (readAbsolutePath (isSpecialScheme scheme) false rest).2 := by
  unfold withHost at h
  split at h
  · exact absurd h (by simp)
  · next hcolon =>
    cases hport : readPort? scheme text with
    | error cause =>
      rw [hport] at h
      exact absurd h (by simp [Except.bind])
    | ok found =>
      obtain ⟨port, rest⟩ := found
      rw [hport] at h
      simp only [Except.bind] at h
      split at h
      · exact absurd h (by simp)
      · next huser =>
        refine ⟨port, rest, rfl, ?_, (Except.ok.inj h).symm⟩
        rintro rfl
        simp only [decide_true, Bool.true_and, Bool.not_eq_true', Bool.and_eq_false_iff,
          List.isEmpty_eq_false_iff, not_or, ne_eq, Decidable.not_not, decide_eq_true_eq]
          at hcolon huser
        exact ⟨hcolon, huser⟩

theorem readAuthority_eq_ok {scheme text : Text} {url : Url}
    (h : readAuthority scheme text = .ok url) :
    ∃ host, readHost (isSpecialScheme scheme) (hostName (isSpecialScheme scheme) text) = .ok host
      ∧ withHost scheme (readUser (userAndHost (isSpecialScheme scheme) text).1) host
        (afterHost (isSpecialScheme scheme) text) = .ok url := by
  rw [readAuthority_eq] at h
  split at h
  · exact absurd h (by simp)
  · cases hhost : readHost (isSpecialScheme scheme) (hostName (isSpecialScheme scheme) text) with
    | error cause =>
      rw [hhost] at h
      exact absurd h (by simp [Except.bind])
    | ok host =>
      rw [hhost] at h
      exact ⟨host, rfl, h⟩

theorem readAuthority_isNormal {scheme text : Text} {url : Url}
    (h : readAuthority scheme text = .ok url) : url.scheme = scheme ∧ url.IsNormalAuthority := by
  obtain ⟨host, hhost, hurl⟩ := readAuthority_eq_ok h
  obtain ⟨port, rest, hport, hbare, rfl⟩ := withHost_eq_ok hurl
  obtain ⟨husername, hpassword⟩ :=
    readUser_isPlain (userAndHost (isSpecialScheme scheme) text).1
  refine ⟨rfl, husername, hpassword, ⟨host, rfl, readHost_isNormal hhost, fun hdomain => ?_⟩,
    readPort?_isNormal hport, ⟨_, rfl, readAbsolutePath_isNormal rest⟩, readTail_isNormal _ _⟩
  obtain ⟨hcolon, hname, hword⟩ := hbare hdomain
  rw [readPort?_of_ne hcolon] at hport
  exact ⟨hname, hword, (Prod.mk.inj (Except.ok.inj hport)).1.symm⟩

/-! ## Authorities and their texts -/

def portText (port : Option Nat) : Text := port.elim [] fun p => ':' :: Text.ofNat p

theorem portText_cases (port : Option Nat) :
    portText port = [] ∨ ∃ p, port = some p ∧ portText port = ':' :: Text.ofNat p := by
  cases port with
  | none => exact .inl rfl
  | some p => exact .inr ⟨p, rfl, rfl⟩

theorem hostPart_append {inside : Bool} {name : Text}
    (h : ∀ c ∈ name, c ≠ '[' ∧ c ≠ ']' ∧ (c ≠ ':' ∨ inside = true)) (rest : Text) :
    hostPart inside (name ++ rest) = name ++ hostPart inside rest := by
  induction name with
  | nil => rfl
  | cons c cs ih =>
    obtain ⟨hopen, hclose, hcolon⟩ := h c List.mem_cons_self
    have hgo : (decide (c = ':') && !inside) = false := by
      rcases hcolon with hcolon | rfl
      · simp [hcolon]
      · simp
    rw [List.cons_append, hostPart, if_neg (by rw [hgo]; exact Bool.false_ne_true), if_neg hopen,
      if_neg hclose, ih fun d hd => h d (List.mem_cons_of_mem c hd), List.cons_append]

theorem hostPart_toText {special : Bool} {host : Host} (h : host.IsNormalFor special)
    (port : Option Nat) : hostPart false (host.toText ++ portText port) = host.toText := by
  have hstop : hostPart false (portText port) = [] := by
    rcases portText_cases port with hport | ⟨p, -, hport⟩ <;> rw [hport] <;> rfl
  rcases h.toText_cases with hname | ⟨pieces, rfl, -⟩
  · rw [hostPart_append (fun c hc => ?_), hstop, List.append_nil]
    have := hname c hc
    exact ⟨ne_of_test this rfl, ne_of_test this rfl, .inl (ne_of_test this rfl)⟩
  · show '[' :: hostPart true ((Host.ipv6Text pieces ++ [']']) ++ portText port) = _
    rw [List.append_assoc, hostPart_append (fun c hc => ?_)]
    · show '[' :: (Host.ipv6Text pieces ++ ']' :: hostPart false (portText port)) = _
      rw [hstop]
      rfl
    · have := Host.isHex_of_mem_ipv6Text hc
      refine ⟨?_, ?_, .inr rfl⟩ <;> rintro rfl <;> exact absurd this (by decide)

theorem isHostChar_of_mem_portText {port : Option Nat} :
    ∀ c ∈ portText port, Host.isHostChar c := by
  intro c hc
  rcases portText_cases port with hport | ⟨p, -, hport⟩
  · rw [hport] at hc
    exact absurd hc List.not_mem_nil
  · rw [hport] at hc
    rcases List.mem_cons.1 hc with rfl | hc
    · decide
    · exact Host.isHostChar_of_not_isForbidden
        (Host.isKept_of_digit (.inr (Host.isDigit_of_mem_ofNat hc))).1

theorem hostPortText_eq {url : Url} {host : Host} (h : url.host = some host) :
    url.hostPortText = host.toText ++ portText url.port := by
  unfold hostPortText
  rw [h]
  rfl

theorem pathText_eq {url : Url} {segments : List Text} (h : url.path = .segments segments) :
    url.pathText = (UrlPath.segments segments).toText := by
  unfold pathText
  rw [h]

/-- A text that may stand behind an authority. -/
def IsBehindHost (text : Text) : Prop := ∀ c ∈ text.head?, c = '/' ∨ c = '?' ∨ c = '#'

theorem readPort?_portText {scheme rest : Text} {port : Option Nat} (hrest : IsBehindHost rest)
    (hport : ∀ p ∈ port, p ≤ 65535 ∧ defaultPort scheme ≠ some p) :
    readPort? scheme (portText port ++ rest) = .ok (port, rest) := by
  cases port with
  | none =>
    refine readPort?_of_ne fun hcolon => ?_
    exact absurd (hrest ':' hcolon) (by decide)
  | some p =>
    obtain ⟨hsmall, hdefault⟩ := hport p rfl
    have hdigits : ∀ c ∈ Text.ofNat p, c.isDigit := fun c hc => Host.isDigit_of_mem_ofNat hc
    have hstop : ∀ c ∈ rest.head?, c.isDigit = false := by
      intro c hc
      rcases hrest c hc with rfl | rfl | rfl <;> decide
    have hvalue : (Host.numberOfBase 10 (Text.ofNat p)).getD 0 = p := by
      unfold Text.ofNat
      rw [Host.numberOfBase_toDigits (by decide) (by decide)]
      rfl
    have hempty : (Text.ofNat p).isEmpty = false :=
      List.isEmpty_eq_false_iff.2 Nat.toDigits_ne_nil
    show readPort scheme (Text.ofNat p ++ rest) = _
    unfold readPort
    simp only [takeWhile_append_stop hdigits hstop, dropWhile_append_stop hdigits hstop, hvalue,
      hempty, hdefault]
    rw [if_neg (by omega)]
    cases hhead : rest.head? with
    | none => rfl
    | some c => rcases hrest c hhead with rfl | rfl | rfl <;> rfl

theorem isBehindHost_toText {segments : List Text} {tail : Text}
    (htail : IsTail tail) : IsBehindHost ((UrlPath.segments segments).toText ++ tail) := by
  cases segments with
  | nil => exact fun c hc => .inr (htail c hc)
  | cons segment rest =>
    rw [toText_segments (by simp)]
    intro c hc
    exact .inl (Option.some.inj hc).symm

theorem endsAuthority_of_ne {special : Bool} {c : Char}
    (h : ∀ d, d = '/' ∨ d = '?' ∨ d = '#' ∨ d = '\\' → c ≠ d) :
    endsAuthority special c = false := by
  simp only [endsAuthority, Bool.or_eq_false_iff, Bool.and_eq_false_iff, beq_eq_false_iff_ne]
  exact ⟨⟨⟨h _ (.inl rfl), h _ (.inr (.inl rfl))⟩, h _ (.inr (.inr (.inl rfl)))⟩,
    .inr (h _ (.inr (.inr (.inr rfl))))⟩

theorem endsAuthority_of_isHostChar {special : Bool} {c : Char} (h : Host.isHostChar c) :
    endsAuthority special c = false :=
  endsAuthority_of_ne fun d hd => ne_of_test h (by rcases hd with rfl | rfl | rfl | rfl <;> rfl)

theorem cutLastAt_eq_none {text : Text} (h : '@' ∉ text) : cutLastAt text = none := by
  unfold cutLastAt
  rw [cut_eq_none_iff.2 fun hmem => h (List.mem_reverse.1 hmem)]
  rfl

theorem cutLastAt_append {user host : Text} (h : '@' ∉ host) :
    cutLastAt (user ++ '@' :: host) = some (user, host) := by
  have hcut : cut '@' (user ++ '@' :: host).reverse = some (host.reverse, user.reverse) := by
    refine cut_eq_some_iff.2 ⟨by simp, fun hmem => h (List.mem_reverse.1 hmem)⟩
  unfold cutLastAt
  rw [hcut]
  simp

theorem colon_notMem_of_isPlain {text : Text} (h : IsPlain inUser text) : ':' ∉ text :=
  fun hmem => absurd (h _ hmem) (by decide)

theorem readUser_name {name : Text} (h : IsPlain inUser name) : readUser name = (name, []) := by
  unfold readUser
  rw [cut_eq_none_iff.2 (colon_notMem_of_isPlain h)]
  dsimp only
  rw [percentEncode_of_isPlain h]

theorem readUser_append {name password : Text} (hname : IsPlain inUser name)
    (hpassword : IsPlain inUser password) :
    readUser (name ++ ':' :: password) = (name, password) := by
  unfold readUser
  rw [cut_eq_some_iff.2 ⟨rfl, colon_notMem_of_isPlain hname⟩]
  dsimp only
  rw [percentEncode_of_isPlain hname, percentEncode_of_isPlain hpassword]

namespace IsNormalAuthority

variable {url : Url}

theorem isHostChar_of_mem_hostPortText (h : url.IsNormalAuthority) :
    ∀ c ∈ url.hostPortText, Host.isHostChar c := by
  obtain ⟨host, hhost, hnormal, -⟩ := h.host
  intro c hc
  rw [hostPortText_eq hhost] at hc
  exact (List.mem_append.1 hc).elim (hnormal.isHostChar_of_mem c) (isHostChar_of_mem_portText c)

/-- User name and password, if there are any, stand before an `@`. -/
theorem userText_cases (h : url.IsNormalAuthority) :
    url.userText = [] ∧ url.username = [] ∧ url.password = []
      ∨ ∃ user, user ≠ [] ∧ url.userText = user ++ ['@']
        ∧ readUser user = (url.username, url.password)
        ∧ ∀ c ∈ user, c = ':' ∨ isPlain inUser c := by
  have hname := h.username
  have hword := h.password
  unfold userText
  generalize url.username = name at hname ⊢
  generalize url.password = word at hword ⊢
  cases word with
  | nil =>
    cases name with
    | nil => exact .inl ⟨rfl, rfl, rfl⟩
    | cons c cs => exact .inr ⟨c :: cs, by simp, by simp, readUser_name hname,
        fun d hd => .inr (hname d hd)⟩
  | cons d ds =>
    refine .inr ⟨name ++ ':' :: d :: ds, by simp, by simp, readUser_append hname hword, ?_⟩
    intro c hc
    rcases List.mem_append.1 hc with hc | hc
    · exact .inr (hname c hc)
    · exact (List.mem_cons.1 hc).imp_right (hword c)

/-- What stands before the path is cut into user and host at its last `@`. -/
theorem cutLastAt_cases (h : url.IsNormalAuthority) :
    cutLastAt (url.userText ++ url.hostPortText) = none ∧ url.userText = []
        ∧ url.username = [] ∧ url.password = []
      ∨ ∃ user, cutLastAt (url.userText ++ url.hostPortText) = some (user, url.hostPortText)
        ∧ user ≠ [] ∧ readUser user = (url.username, url.password) := by
  have hat : '@' ∉ url.hostPortText := fun hmem =>
    absurd (h.isHostChar_of_mem_hostPortText _ hmem) (by decide)
  rcases h.userText_cases with ⟨htext, hname, hword⟩ | ⟨user, hne, htext, hread, -⟩
  · rw [htext]
    exact .inl ⟨cutLastAt_eq_none hat, rfl, hname, hword⟩
  · refine .inr ⟨user, ?_, hne, hread⟩
    rw [htext, List.append_assoc]
    exact cutLastAt_append hat

theorem endsAuthority_of_mem (h : url.IsNormalAuthority) {special : Bool} {c : Char}
    (hc : c ∈ url.userText ++ url.hostPortText) : endsAuthority special c = false := by
  rcases List.mem_append.1 hc with hc | hc
  · rcases h.userText_cases with ⟨htext, -⟩ | ⟨user, -, htext, -, hchars⟩
    · rw [htext] at hc
      exact absurd hc List.not_mem_nil
    · rw [htext] at hc
      rcases List.mem_append.1 hc with hc | hc
      · rcases hchars c hc with rfl | hc
        · cases special <;> rfl
        · exact endsAuthority_of_ne fun d hd => ne_of_test hc (by
            rcases hd with rfl | rfl | rfl | rfl <;> rfl)
      · rw [List.mem_singleton.1 hc]
        cases special <;> rfl
  · exact endsAuthority_of_isHostChar (h.isHostChar_of_mem_hostPortText c hc)

end IsNormalAuthority

/-- The text of a URL from behind the slashes of its scheme. -/
def behindSlashes (url : Url) : Text :=
  url.userText ++ url.hostPortText ++ (url.pathText ++ tailText url.query url.fragment)

namespace IsNormalAuthority

variable {url : Url} {special : Bool}

theorem isBehindHost_rest (h : url.IsNormalAuthority) :
    IsBehindHost (url.pathText ++ tailText url.query url.fragment) := by
  obtain ⟨segments, hsegments, -⟩ := h.path
  rw [pathText_eq hsegments]
  exact isBehindHost_toText (isTail_tailText _ _)

/-- The authority ends where the path, the query or the fragment begins. -/
theorem takeWhile_behindSlashes (h : url.IsNormalAuthority) :
    (url.behindSlashes.takeWhile fun c => !endsAuthority special c)
        = url.userText ++ url.hostPortText
      ∧ (url.behindSlashes.dropWhile fun c => !endsAuthority special c)
        = url.pathText ++ tailText url.query url.fragment := by
  have hinside : ∀ c ∈ url.userText ++ url.hostPortText, (!endsAuthority special c) = true :=
    fun c hc => by rw [h.endsAuthority_of_mem hc]; rfl
  have hstop : ∀ c ∈ (url.pathText ++ tailText url.query url.fragment).head?,
      (!endsAuthority special c) = false := by
    intro c hc
    rcases h.isBehindHost_rest c hc with rfl | rfl | rfl <;> cases special <;> rfl
  exact ⟨takeWhile_append_stop hinside hstop, dropWhile_append_stop hinside hstop⟩

theorem userAndHost_behindSlashes (h : url.IsNormalAuthority) :
    (userAndHost special url.behindSlashes).2 = url.hostPortText
      ∧ readUser (userAndHost special url.behindSlashes).1 = (url.username, url.password) := by
  unfold userAndHost
  simp only [h.takeWhile_behindSlashes.1]
  rcases h.cutLastAt_cases with ⟨hcut, htext, hname, hword⟩ | ⟨user, hcut, -, hread⟩
  · rw [hcut, htext, hname, hword]
    exact ⟨rfl, rfl⟩
  · rw [hcut]
    exact ⟨rfl, hread⟩

theorem hostName_behindSlashes (h : url.IsNormalAuthority) {host : Host}
    (hhost : url.host = some host) (hnormal : host.IsNormalFor (isSpecialScheme url.scheme)) :
    hostName special url.behindSlashes = host.toText := by
  unfold hostName
  rw [h.userAndHost_behindSlashes.1, hostPortText_eq hhost]
  exact hostPart_toText hnormal url.port

theorem afterHost_behindSlashes (h : url.IsNormalAuthority) {host : Host}
    (hhost : url.host = some host) (hnormal : host.IsNormalFor (isSpecialScheme url.scheme)) :
    afterHost special url.behindSlashes
      = portText url.port ++ (url.pathText ++ tailText url.query url.fragment) := by
  unfold afterHost
  rw [h.userAndHost_behindSlashes.1, h.hostName_behindSlashes hhost hnormal,
    h.takeWhile_behindSlashes.2, hostPortText_eq hhost, List.drop_left]

theorem lacksHost_behindSlashes (h : url.IsNormalAuthority) :
    lacksHost (isSpecialScheme url.scheme) url.behindSlashes = false := by
  obtain ⟨host, hhost, hnormal, -⟩ := h.host
  have hspecial : (isSpecialScheme url.scheme && host.toText.isEmpty) = false := by
    cases hscheme : isSpecialScheme url.scheme with
    | false => rfl
    | true =>
      rw [hscheme] at hnormal
      exact List.isEmpty_eq_false_iff.2 (Host.toText_ne_nil hnormal)
  unfold lacksHost
  rw [h.hostName_behindSlashes hhost hnormal, hspecial, Bool.or_false, h.takeWhile_behindSlashes.1]
  rcases h.cutLastAt_cases with ⟨hcut, -⟩ | ⟨user, hcut, hne, -⟩
  · rw [hcut]
    rfl
  · have huser : (userAndHost (isSpecialScheme url.scheme) url.behindSlashes).1 = user := by
      unfold userAndHost
      simp only [h.takeWhile_behindSlashes.1, hcut, Option.getD_some]
    rw [huser, List.isEmpty_eq_false_iff.2 hne, Bool.and_false, Bool.false_and, Bool.false_and]

/-- From behind the name of the host, the URL is read back. -/
theorem withHost_toText (h : url.IsNormalAuthority) {host : Host} (hhost : url.host = some host)
    (hbare : host = .domain [] → url.username = [] ∧ url.password = [] ∧ url.port = none) :
    withHost url.scheme (url.username, url.password) host
      (portText url.port ++ (url.pathText ++ tailText url.query url.fragment)) = .ok url := by
  obtain ⟨segments, hsegments, hpath⟩ := h.path
  have hcolon : (decide (host = .domain []) && decide ((portText url.port
      ++ (url.pathText ++ tailText url.query url.fragment)).head? = some ':')) = false := by
    rw [Bool.and_eq_false_iff]
    by_cases hdomain : host = .domain []
    · rw [(hbare hdomain).2.2]
      refine .inr (decide_eq_false fun hhead => ?_)
      exact absurd (h.isBehindHost_rest ':' hhead) (by decide)
    · exact .inl (decide_eq_false hdomain)
  have huser : (decide (host = .domain [])
      && !(url.username.isEmpty && url.password.isEmpty)) = false := by
    by_cases hdomain : host = .domain []
    · rw [(hbare hdomain).1, (hbare hdomain).2.1]
      exact Bool.and_false _
    · rw [decide_eq_false hdomain]
      rfl
  unfold withHost
  rw [hcolon, readPort?_portText h.isBehindHost_rest h.port, pathText_eq hsegments]
  simp only [Bool.false_eq_true, if_false, Except.bind, huser,
    readAbsolutePath_toText hpath (isTail_tailText _ _), withTail, readTail_tailText h.tail]
  rw [← hhost, ← hsegments]

end IsNormalAuthority

/-- Where the authority is of a normal form, the URL is read back. -/
theorem readAuthority_behindSlashes {url : Url} (h : url.IsNormalAuthority) :
    readAuthority url.scheme url.behindSlashes = .ok url := by
  obtain ⟨host, hhost, hnormal, hbare⟩ := h.host
  rw [readAuthority_eq, h.lacksHost_behindSlashes, h.hostName_behindSlashes hhost hnormal,
    readHost_toText hnormal, h.afterHost_behindSlashes hhost hnormal,
    h.userAndHost_behindSlashes.2]
  exact h.withHost_toText hhost hbare

namespace IsNormalAuthority

variable {url : Url}

theorem lt_of_mem_behindSlashes (h : url.IsNormalAuthority) :
    ∀ c ∈ url.behindSlashes, 32 < c.toNat := by
  obtain ⟨segments, hsegments, hpath⟩ := h.path
  intro c hc
  unfold behindSlashes at hc
  rw [pathText_eq hsegments] at hc
  rcases List.mem_append.1 hc with hc | hc
  · rcases List.mem_append.1 hc with hc | hc
    · rcases h.userText_cases with ⟨htext, -⟩ | ⟨user, -, htext, -, hchars⟩
      · rw [htext] at hc
        exact absurd hc List.not_mem_nil
      · rw [htext] at hc
        rcases List.mem_append.1 hc with hc | hc
        · rcases hchars c hc with rfl | hc
          · decide
          · exact lt_of_plain rfl hc
        · rw [List.mem_singleton.1 hc]
          decide
    · exact Host.lt_of_isHostChar (h.isHostChar_of_mem_hostPortText c hc)
  · rcases List.mem_append.1 hc with hc | hc
    · exact lt_of_mem_segments hpath.segments c hc
    · exact lt_of_mem_tailText h.tail c hc

theorem toText_eq (h : url.IsNormalAuthority) :
    url.toText = url.scheme ++ ':' :: '/' :: '/' :: url.behindSlashes := by
  obtain ⟨host, hhost, -⟩ := h.host
  unfold toText behindSlashes tailText
  rw [hhost]
  simp

theorem dropWhile_slashes (h : url.IsNormalAuthority) (hspecial : isSpecialScheme url.scheme) :
    ('/' :: '/' :: url.behindSlashes).dropWhile (isSlash true) = url.behindSlashes := by
  have hauthority : ∃ c rest, url.userText ++ url.hostPortText = c :: rest := by
    obtain ⟨host, hhost, hnormal, -⟩ := h.host
    rw [hspecial] at hnormal
    refine List.exists_cons_of_ne_nil fun hnil => ?_
    rw [hostPortText_eq hhost] at hnil
    exact Host.toText_ne_nil hnormal
      (List.append_eq_nil_iff.1 (List.append_eq_nil_iff.1 hnil).2).1
  obtain ⟨c, rest, heq⟩ := hauthority
  have hc : isSlash true c = false := by
    have : endsAuthority true c = false := h.endsAuthority_of_mem (heq ▸ List.mem_cons_self)
    simp only [endsAuthority, Bool.or_eq_false_iff] at this
    unfold isSlash
    rw [this.1.1.1, this.2]
    rfl
  show (['/', '/'] ++ url.behindSlashes).dropWhile (isSlash true) = _
  refine dropWhile_append_stop (by decide) fun d hd => ?_
  have hhead : url.behindSlashes.head? = some c := by
    unfold behindSlashes
    rw [heq]
    rfl
  rw [hhead] at hd
  rw [← Option.some.inj hd]
  exact hc

end IsNormalAuthority

end Url

end HubRules
