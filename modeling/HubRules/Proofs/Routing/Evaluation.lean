import HubRules.Proofs.Reference.Named

/-!
# References at request time

What each engine makes of the references of a rule when a request comes in, given the parts
that were captured from it. nginx reads `$name` itself: it looks the name up in the routing
table, or takes the captured part where the table has no entry. httpd reads its variables
first and the lookups `${map:key|default}` in the text that results.

`Evaluates` is the evaluation of a piece of httpd text inside any text, so that pieces can
be put together. The main statement is `evaluate_toHttpd`: a text written for httpd evaluates
there as the text itself does in nginx.
-/

namespace HubRules

/-- The captured parts of a request by name; a name that captured nothing has an empty one. -/
abbrev Captures := Text → Text

def Captures.fill (captures : Captures) (text : Text) : Text :=
  Text.replaceTokens Reference.named? captures text

/-- What an entry answers for an input: the text of its table, else the default. -/
def Mapping.answer (mapping : Mapping) (input default_ : Text) : Text :=
  ((mapping.output.get? (String.ofList input)).map Json.toPlainText).getD default_

/-! ## nginx -/

namespace Nginx

/-- The value of a named reference. -/
def value (table : RoutingTable) (captures : Captures) (name : Text) : Text :=
  match table.get? (String.ofList name) with
  | some mapping =>
    mapping.answer (captures.fill mapping.input.toList)
      (mapping.default?.elim [] fun d => captures.fill d.toList)
  | none => captures name

def evaluate (table : RoutingTable) (captures : Captures) (text : Text) : Text :=
  Text.replaceTokens Reference.named? (value table captures) text

end Nginx

/-! ## httpd -/

namespace Httpd

def isVariableChar (c : Char) : Bool := c == '_' || c.isUpper

/-- A variable of the matcher at the head of a text: its name and the length of the whole. -/
def readVariable? (text : Text) : Option (Text × Nat) := do
  let rest ← Text.dropStart? "%\x7bENV:MATCH_".toList text
  let name := rest.takeWhile isVariableChar
  if name.isEmpty then none
  let behind ← Text.dropStart? ['\x7d'] (rest.dropWhile isVariableChar)
  return (name, text.length - behind.length)

def expandVariables (captures : Captures) (text : Text) : Text :=
  Text.replaceTokens readVariable? (fun name => captures (Text.lowerAscii name)) text

/-- A lookup in the map of an entry. -/
structure Lookup where
  entry : Text
  key : Text
  default_ : Text
  deriving DecidableEq, Repr

def isKeyChar (c : Char) : Bool := c != '|' && c != '\x7d'

/-- A lookup at the head of a text, and the length of the whole. -/
def lookup? (text : Text) : Option (Lookup × Nat) := do
  let rest ← Text.dropStart? "$\x7b".toList text
  if (rest.takeWhile Char.isLower).isEmpty then none
  let rest ← Text.dropStart? ['_'] (rest.dropWhile Char.isLower)
  let entry := rest.takeWhile Reference.isNameChar
  if entry.isEmpty then none
  let rest ← Text.dropStart? [':'] (rest.dropWhile Reference.isNameChar)
  let key := rest.takeWhile isKeyChar
  let rest ← Text.dropStart? ['|'] (rest.dropWhile isKeyChar)
  let default_ := rest.takeWhile (· != '\x7d')
  let behind ← Text.dropStart? ['\x7d'] (rest.dropWhile (· != '\x7d'))
  return (⟨entry, key, default_⟩, text.length - behind.length)

/-- The answer to a lookup; a map that the table does not have holds nothing. -/
def answer (table : RoutingTable) (lookup : Lookup) : Text :=
  match table.get? (String.ofList lookup.entry) with
  | some mapping => mapping.answer lookup.key lookup.default_
  | none => lookup.default_

/-- The text with its lookups answered. -/
def answerLookups (table : RoutingTable) (text : Text) : Text :=
  Text.replaceTokens lookup? (answer table) text

def evaluate (table : RoutingTable) (captures : Captures) (text : Text) : Text :=
  answerLookups table (expandVariables captures text)

end Httpd

/-! ## Texts that both engines can read -/

namespace Reference

/-- The characters of httpd's variables and lookups. -/
def isReserved (c : Char) : Bool := "%\x7b\x7d|".toList.contains c

/-- Whether a text holds none of httpd's characters and refers to names in lower case. -/
def isPlain (text : Text) : Bool :=
  text.all (!isReserved ·) && (Text.scan named? text).all fun
    | .char _ => true
    | .token name => name.all isLowerNameChar

def toHttpd (table : RoutingTable) (text : Text) : Text :=
  Text.replaceTokens named? (httpdReference table) text

end Reference

def Mapping.isPlain (mapping : Mapping) : Bool :=
  Reference.isPlain mapping.input.toList
    && mapping.default?.all fun d => Reference.isPlain d.toList

def RoutingTable.isPlain (table : RoutingTable) : Bool := table.entries.all (·.2.isPlain)

/-- No captured part holds httpd's characters. -/
def Captures.IsPlain (captures : Captures) : Prop :=
  ∀ name, ∀ c ∈ captures name, Reference.isReserved c = false

namespace Nginx

open Reference Text

theorem evaluate_of_no_reference {table : RoutingTable} {captures : Captures} {text : Text}
    (h : ∀ name, .token name ∉ scan named? text) :
    evaluate table captures text = text := by
  have hpieces : ofPieces (value table captures) (scan named? text)
      = ofPieces ('$' :: ·) (scan named? text) :=
    ofPieces_related rfl (fun ha hb => by rw [ha, hb]) (fun _ _ => rfl)
      fun name hname => absurd hname (h name)
  unfold evaluate replaceTokens
  rw [hpieces, ofPieces_scan_named]

end Nginx

/-! ## Reading httpd text -/

namespace Httpd

open Reference Text

variable {captures : Captures} {table : RoutingTable}

theorem readVariable?_of_ne {c : Char} {rest : Text} (h : c ≠ '%' ∨ rest.head? ≠ some '\x7b') :
    readVariable? (c :: rest) = none := by
  have hstart : dropStart? "%\x7bENV:MATCH_".toList (c :: rest) = none := by
    cases rest with
    | nil => simp [dropStart?]
    | cons d ds =>
      rcases h with h | h
      · simp [dropStart?, Ne.symm h]
      · have hd : '\x7b' ≠ d := fun heq => h (by simp [← heq])
        simp [dropStart?, hd]
  unfold readVariable?
  rw [hstart]
  rfl

theorem readVariable?_httpdVariable {name rest : Text} (hne : name ≠ [])
    (hlower : ∀ c ∈ name, isLowerNameChar c) :
    readVariable? (httpdVariable name ++ rest)
      = some (toUpper name, (httpdVariable name).length) := by
  have hchars : ∀ c ∈ toUpper name, isVariableChar c :=
    fun c hc => isUpper_of_mem_toUpper hlower hc
  have hstop : ∀ c ∈ (['\x7d'] ++ rest).head?, isVariableChar c = false := by
    simp [isVariableChar]
  have hupper : (toUpper name).isEmpty = false := by simpa [toUpper_eq_map hlower] using hne
  have htext : httpdVariable name ++ rest
      = "%\x7bENV:MATCH_".toList ++ (toUpper name ++ (['\x7d'] ++ rest)) := by
    unfold httpdVariable
    rw [List.append_assoc, List.append_assoc]
  have hlength : (httpdVariable name ++ rest).length - rest.length
      = (httpdVariable name).length := by
    rw [List.length_append]
    omega
  rw [← hlength, htext]
  simp only [readVariable?, dropStart?_append, takeWhile_append_stop hchars hstop,
    dropWhile_append_stop hchars hstop, hupper, Bool.false_eq_true, if_false, Option.bind_eq_bind,
    Option.bind_some, Option.pure_def]

theorem lookup?_of_ne {c : Char} {rest : Text} (h : c ≠ '$' ∨ rest.head? ≠ some '\x7b') :
    lookup? (c :: rest) = none := by
  have hstart : dropStart? "$\x7b".toList (c :: rest) = none := by
    cases rest with
    | nil => simp [dropStart?]
    | cons d ds =>
      rcases h with h | h
      · simp [dropStart?, Ne.symm h]
      · have hd : '\x7b' ≠ d := fun heq => h (by simp [← heq])
        simp [dropStart?, hd]
  unfold lookup?
  rw [hstart]
  rfl

def Lookup.toText (group : RoutingGroup) (lookup : Lookup) : Text :=
  "$\x7b".toList ++ (group.name.toList ++ (['_'] ++ (lookup.entry ++ ([':'] ++ (lookup.key
    ++ (['|'] ++ (lookup.default_ ++ ['\x7d'])))))))

/-- A lookup is read back whatever follows it. -/
theorem lookup?_toText (group : RoutingGroup) {lookup : Lookup} {rest : Text}
    (hne : lookup.entry ≠ []) (hentry : ∀ c ∈ lookup.entry, isNameChar c)
    (hkey : ∀ c ∈ lookup.key, isReserved c = false)
    (hdefault : ∀ c ∈ lookup.default_, isReserved c = false) :
    lookup? (lookup.toText group ++ rest) = some (lookup, (lookup.toText group).length) := by
  obtain ⟨entry, key, default_⟩ := lookup
  have hgroup : ∀ c ∈ group.name.toList, c.isLower := by cases group <;> decide
  have hgroupNe : group.name.toList.isEmpty = false := by cases group <;> decide
  have hentryNe : entry.isEmpty = false := by simpa using hne
  have hkeyChar : ∀ c ∈ key, isKeyChar c := by
    intro c hc
    have := hkey c hc
    simp [isReserved] at this
    simp [isKeyChar, this]
  have hdefaultChar : ∀ c ∈ default_, (c != '\x7d') = true := by
    intro c hc
    have := hdefault c hc
    simp [isReserved] at this
    simp [this]
  have htext : (Lookup.mk entry key default_).toText group ++ rest
      = "$\x7b".toList ++ (group.name.toList ++ (['_'] ++ (entry ++ ([':'] ++ (key
        ++ (['|'] ++ (default_ ++ (['\x7d'] ++ rest)))))))) := by
    unfold Lookup.toText
    simp only [List.append_assoc]
  have hlength : ((Lookup.mk entry key default_).toText group ++ rest).length - rest.length
      = ((Lookup.mk entry key default_).toText group).length := by
    rw [List.length_append]
    omega
  -- each run of characters ends at the sign that follows it
  have hstopGroup : ∀ tail : Text, ∀ c ∈ (['_'] ++ tail).head?, c.isLower = false := by simp
  have hstopEntry : ∀ tail : Text, ∀ c ∈ ([':'] ++ tail).head?, isNameChar c = false := by
    simp [isNameChar]
  have hstopKey : ∀ tail : Text, ∀ c ∈ (['|'] ++ tail).head?, isKeyChar c = false := by
    simp [isKeyChar]
  have hstopDefault : ∀ tail : Text, ∀ c ∈ (['\x7d'] ++ tail).head?, (c != '\x7d') = false := by
    simp
  rw [← hlength, htext]
  simp only [lookup?, dropStart?_append, takeWhile_append_stop hgroup (hstopGroup _),
    dropWhile_append_stop hgroup (hstopGroup _), takeWhile_append_stop hentry (hstopEntry _),
    dropWhile_append_stop hentry (hstopEntry _), takeWhile_append_stop hkeyChar (hstopKey _),
    dropWhile_append_stop hkeyChar (hstopKey _),
    takeWhile_append_stop hdefaultChar (hstopDefault _),
    dropWhile_append_stop hdefaultChar (hstopDefault _), hgroupNe, hentryNe, Bool.false_eq_true,
    if_false, Option.bind_eq_bind, Option.bind_some, Option.pure_def]

/-! ## Putting pieces of httpd text together -/

/-- Wherever it stands, `source` is `target` once the variables are read. -/
def Expands (captures : Captures) (source target : Text) : Prop :=
  ∀ rest, expandVariables captures (source ++ rest) = target ++ expandVariables captures rest

namespace Expands

theorem nil : Expands captures [] [] := fun _ => rfl

theorem append {a a' b b' : Text} (ha : Expands captures a a') (hb : Expands captures b b') :
    Expands captures (a ++ b) (a' ++ b') := by
  intro rest
  rw [List.append_assoc, ha, hb, List.append_assoc]

theorem literal {text : Text} (h : '%' ∉ text) : Expands captures text text := by
  intro rest
  refine replaceTokens_run fun c behind hsuffix => readVariable?_of_ne (.inl fun hc => ?_)
  subst hc
  exact h (hsuffix.mem List.mem_cons_self)

theorem named {name : Text} (hne : name ≠ []) (hlower : ∀ c ∈ name, isLowerNameChar c) :
    Expands captures (httpdVariable name) (captures name) := by
  intro rest
  have hvariable : httpdVariable name ≠ [] := by
    unfold httpdVariable
    simp
  have hstep : expandVariables captures (httpdVariable name ++ rest)
      = captures (lowerAscii (toUpper name)) ++ expandVariables captures rest :=
    replaceTokens_token hvariable (readVariable?_httpdVariable hne hlower)
  rw [lowerAscii_toUpper hlower] at hstep
  exact hstep

theorem pieces {write write' : Text → Text} {list : List (Piece Text)}
    (hchar : ∀ c, .char c ∈ list → c ≠ '%')
    (htoken : ∀ name, .token name ∈ list → Expands captures (write name) (write' name)) :
    Expands captures (ofPieces write list) (ofPieces write' list) :=
  ofPieces_related nil append (fun c hc => literal (by simpa using (hchar c hc).symm)) htoken

end Expands

theorem expandVariables_of_not_mem {text : Text} (h : '%' ∉ text) :
    expandVariables captures text = text := by
  calc expandVariables captures text
      = expandVariables captures (text ++ []) := by rw [List.append_nil]
    _ = text ++ expandVariables captures [] := Expands.literal h []
    _ = text := List.append_nil text

theorem head?_append_ne {text rest : Text} (h : '\x7b' ∉ text)
    (hrest : rest.head? ≠ some '\x7b') : (text ++ rest).head? ≠ some '\x7b' := by
  cases text with
  | nil => exact hrest
  | cons c cs =>
    intro heq
    obtain rfl : c = '\x7b' := by simpa using heq
    exact h List.mem_cons_self

/-- Behind each character of a text without braces stands no brace. -/
theorem head?_behind_ne {text rest behind : Text} {c : Char} (h : '\x7b' ∉ text)
    (hrest : rest.head? ≠ some '\x7b') (hsuffix : c :: behind <:+ text) :
    (behind ++ rest).head? ≠ some '\x7b' :=
  head?_append_ne (fun hmem => h (hsuffix.mem (List.mem_cons_of_mem c hmem))) hrest

/-- A text without braces holds no lookup, not even the start of one. -/
theorem answerLookups_append {text rest : Text} (h : '\x7b' ∉ text)
    (hrest : rest.head? ≠ some '\x7b') :
    answerLookups table (text ++ rest) = text ++ answerLookups table rest :=
  -- even a dollar sign begins no lookup here, as no brace follows it
  replaceTokens_run fun _ _ hsuffix => lookup?_of_ne (.inr (head?_behind_ne h hrest hsuffix))

theorem answerLookups_of_not_mem {text : Text} (h : '\x7b' ∉ text) :
    answerLookups table text = text := by
  calc answerLookups table text
      = answerLookups table (text ++ []) := by rw [List.append_nil]
    _ = text ++ answerLookups table [] := answerLookups_append h (by simp)
    _ = text := List.append_nil text

/-- Without `%` a text has no variables, so that the request does not matter to httpd. -/
theorem evaluate_of_not_mem {text : Text} (h : '%' ∉ text) :
    evaluate table captures text = answerLookups table text := by
  unfold evaluate
  rw [expandVariables_of_not_mem h]

/-- A text without braces in front of a slash evaluates to itself. -/
theorem evaluate_before_slash {text rest : Text} (h : '\x7b' ∉ text) :
    evaluate table captures (text ++ '/' :: rest)
      = text ++ evaluate table captures ('/' :: rest) := by
  have hslash : ('/' :: rest).head? ≠ some '\x7b' := by simp
  have hexpand : expandVariables captures (text ++ '/' :: rest)
      = text ++ expandVariables captures ('/' :: rest) :=
    replaceTokens_run fun _ _ hsuffix =>
      readVariable?_of_ne (.inr (head?_behind_ne h hslash hsuffix))
  have hstep : expandVariables captures ('/' :: rest) = '/' :: expandVariables captures rest :=
    replaceTokens_char (readVariable?_of_ne (.inl (by decide)))
  unfold evaluate
  rw [hexpand, answerLookups_append h (by rw [hstep]; simp)]

/-- Wherever it stands, `source` evaluates to `target`. What follows must not begin with a
brace once its variables are read, since a dollar sign before it would begin a lookup. -/
def Evaluates (table : RoutingTable) (captures : Captures) (source target : Text) : Prop :=
  ∀ rest, (expandVariables captures rest).head? ≠ some '\x7b' →
    (expandVariables captures (source ++ rest)).head? ≠ some '\x7b'
      ∧ evaluate table captures (source ++ rest) = target ++ evaluate table captures rest

namespace Evaluates

theorem nil : Evaluates table captures [] [] := fun _ h => ⟨h, rfl⟩

theorem append {a a' b b' : Text} (ha : Evaluates table captures a a')
    (hb : Evaluates table captures b b') : Evaluates table captures (a ++ b) (a' ++ b') := by
  intro rest hrest
  obtain ⟨hhead, hvalue⟩ := hb rest hrest
  obtain ⟨hhead', hvalue'⟩ := ha (b ++ rest) hhead
  rw [List.append_assoc]
  exact ⟨hhead', by rw [hvalue', hvalue, List.append_assoc]⟩

/-- What is free of braces once its variables are read evaluates to that. -/
theorem of_expands {source target : Text} (h : Expands captures source target)
    (hbrace : '\x7b' ∉ target) : Evaluates table captures source target := by
  intro rest hrest
  unfold evaluate
  rw [h rest]
  exact ⟨head?_append_ne hbrace hrest, answerLookups_append hbrace hrest⟩

theorem literal {text : Text} (hpercent : '%' ∉ text) (hbrace : '\x7b' ∉ text) :
    Evaluates table captures text text :=
  of_expands (Expands.literal hpercent) hbrace

theorem named {name : Text} (hcaptures : captures.IsPlain) (hne : name ≠ [])
    (hlower : ∀ c ∈ name, isLowerNameChar c) :
    Evaluates table captures (httpdVariable name) (captures name) := by
  refine of_expands (Expands.named hne hlower) fun hmem => ?_
  have := hcaptures name _ hmem
  simp [isReserved] at this

theorem pieces {write write' : Text → Text} {list : List (Piece Text)}
    (hchar : ∀ c, .char c ∈ list → c ≠ '%' ∧ c ≠ '\x7b')
    (htoken : ∀ name, .token name ∈ list → Evaluates table captures (write name) (write' name)) :
    Evaluates table captures (ofPieces write list) (ofPieces write' list) := by
  refine ofPieces_related nil append (fun c hc => ?_) htoken
  obtain ⟨hpercent, hbrace⟩ := hchar c hc
  exact literal (by simpa using hpercent.symm) (by simpa using hbrace.symm)

/-- A lookup is answered once the variables of its key and default are read. -/
theorem lookup {entry key key' default_ default' : Text}
    (hne : entry ≠ []) (hentry : ∀ c ∈ entry, isNameChar c) (hkey : Expands captures key key')
    (hkeyPlain : ∀ c ∈ key', isReserved c = false) (hdefault : Expands captures default_ default')
    (hdefaultPlain : ∀ c ∈ default', isReserved c = false) :
    Evaluates table captures ((Lookup.mk entry key default_).toText table.group)
      (answer table ⟨entry, key', default'⟩) := by
  have hgroup : '%' ∉ table.group.name.toList := by cases table.group <;> decide
  have hentry' : '%' ∉ entry := fun hmem => absurd (hentry _ hmem) (by decide)
  -- the variables are read first, which leaves a lookup of the texts they stand for
  have hexpands : Expands captures ((Lookup.mk entry key default_).toText table.group)
      ((Lookup.mk entry key' default').toText table.group) :=
    .append (.literal (by decide)) <| .append (.literal hgroup) <| .append (.literal (by decide)) <|
      .append (.literal hentry') <| .append (.literal (by decide)) <| .append hkey <|
      .append (.literal (by decide)) <| .append hdefault (.literal (by decide))
  have hnonempty : (Lookup.mk entry key' default').toText table.group ≠ [] := by
    unfold Lookup.toText
    simp
  intro rest hrest
  unfold evaluate
  rw [hexpands rest]
  constructor
  · unfold Lookup.toText
    simp
  · exact replaceTokens_token hnonempty
      (lookup?_toText table.group hne hentry hkeyPlain hdefaultPlain)

end Evaluates

/-! ## Text written for httpd -/

theorem isPlain_iff {text : Text} : isPlain text ↔
    (∀ c ∈ text, isReserved c = false)
      ∧ ∀ name, .token name ∈ scan named? text → ∀ c ∈ name, isLowerNameChar c := by
  simp only [isPlain, Bool.and_eq_true, List.all_eq_true, Bool.not_eq_true']
  refine and_congr_right fun _ => ⟨fun h name hname => ?_, fun h piece hpiece => ?_⟩
  · simpa using h _ hname
  · cases piece with
    | char c => rfl
    | token name => simpa using h name hpiece

theorem Expands.toHttpdVariables {text : Text} (h : isPlain text) :
    Expands captures (toHttpdVariables text) (captures.fill text) := by
  obtain ⟨hchars, hlower⟩ := isPlain_iff.1 h
  refine Expands.pieces (fun c hc => ?_) fun name hname => ?_
  · intro heq
    subst heq
    exact absurd (hchars _ (mem_of_char_mem_scan hc)) (by decide)
  · exact Expands.named (isNameChar_of_token_mem hname).1 (hlower name hname)

theorem isReserved_fill {text : Text} (hcaptures : captures.IsPlain) (h : isPlain text) :
    ∀ c ∈ captures.fill text, isReserved c = false := by
  intro c hc
  rcases mem_ofPieces.1 hc with hc | ⟨name, -, hc⟩
  · exact (isPlain_iff.1 h).1 c (mem_of_char_mem_scan hc)
  · exact hcaptures name c hc

theorem httpdLookup_eq (table : RoutingTable) (name : Text) (mapping : Mapping) :
    httpdLookup table name mapping
      = (Lookup.mk name (toHttpdVariables mapping.input.toList)
          (mapping.default?.elim [] fun d => toHttpdVariables d.toList)).toText table.group := by
  unfold httpdLookup Lookup.toText RoutingTable.mapName
  simp [String.toList_append]

theorem mapping_isPlain {name : String} {mapping : Mapping} (htable : table.isPlain)
    (h : table.get? name = some mapping) : mapping.isPlain := by
  obtain ⟨before, behind, hentries, -⟩ := List.lookup_eq_some_iff.1 h
  exact List.all_eq_true.1 htable (name, mapping) (by simp [hentries])

theorem Evaluates.httpdReference {name : Text} (htable : table.isPlain)
    (hcaptures : captures.IsPlain) (hne : name ≠ []) (hlower : ∀ c ∈ name, isLowerNameChar c) :
    Evaluates table captures (httpdReference table name) (Nginx.value table captures name) := by
  unfold Reference.httpdReference Nginx.value
  cases hget : table.get? (String.ofList name) with
  | none => exact Evaluates.named hcaptures hne hlower
  | some mapping =>
    have hplain := mapping_isPlain htable hget
    simp only [Mapping.isPlain, Bool.and_eq_true] at hplain
    obtain ⟨hinput, hdefault⟩ := hplain
    have hname : ∀ c ∈ name, isNameChar c := fun c hc => isNameChar_of_isLower (hlower c hc)
    have hanswer : answer table ⟨name, captures.fill mapping.input.toList,
        mapping.default?.elim [] fun d => captures.fill d.toList⟩
          = mapping.answer (captures.fill mapping.input.toList)
            (mapping.default?.elim [] fun d => captures.fill d.toList) := by
      simp only [answer, hget]
    simp only [httpdLookup_eq]
    rw [← hanswer]
    refine Evaluates.lookup hne hname (.toHttpdVariables hinput) (isReserved_fill hcaptures hinput)
      ?_ ?_
    · cases hd : mapping.default? with
      | none => exact .nil
      | some d => exact .toHttpdVariables (by simpa [hd] using hdefault)
    · cases hd : mapping.default? with
      | none => simp
      | some d => exact isReserved_fill hcaptures (by simpa [hd] using hdefault)

/-- Wherever it stands, a plain text written for httpd evaluates as the text does in nginx. -/
theorem Evaluates.toHttpd {text : Text} (htable : table.isPlain) (hcaptures : captures.IsPlain)
    (htext : isPlain text) :
    Evaluates table captures (toHttpd table text) (Nginx.evaluate table captures text) := by
  obtain ⟨hchars, hlower⟩ := isPlain_iff.1 htext
  refine Evaluates.pieces (fun c hc => ?_) fun name hname => ?_
  · have := hchars c (mem_of_char_mem_scan hc)
    exact ⟨ne_of_test this rfl, ne_of_test this rfl⟩
  · exact Evaluates.httpdReference htable hcaptures (isNameChar_of_token_mem hname).1
      (hlower name hname)

theorem Evaluates.evaluate_eq {source target : Text} (h : Evaluates table captures source target) :
    evaluate table captures source = target := by
  have := (h [] (by simp [expandVariables])).2
  rw [List.append_nil] at this
  rw [this]
  exact List.append_nil _

theorem evaluate_toHttpd {text : Text} (htable : table.isPlain) (hcaptures : captures.IsPlain)
    (htext : isPlain text) :
    evaluate table captures (toHttpd table text) = Nginx.evaluate table captures text :=
  (Evaluates.toHttpd htable hcaptures htext).evaluate_eq

end Httpd

end HubRules
