import HubRules.Json.Parser
import HubRules.Proofs.Text.Tokens

/-!
# Strings that are read back

A text that needs no escape is read back from between its quotes (`reads_quoted`), and a list of
such texts from between its brackets, with blanks behind the commas or without
(`parse_quotedItems`). Places are counted on the way and matter to no value, so what a reader makes
of a text is stated for every place and for every rest behind the text (`Reads`).
-/

namespace HubRules.Json

open Text

/-- A text that stands for itself between quotes. -/
def IsVerbatim (text : Text) : Prop := ∀ c ∈ text, c ≠ '"' ∧ c ≠ '\\' ∧ 32 ≤ c.toNat

instance : DecidablePred IsVerbatim := fun text =>
  inferInstanceAs (Decidable (∀ c ∈ text, c ≠ '"' ∧ c ≠ '\\' ∧ 32 ≤ c.toNat))

/-- A text between quotes, as it is. -/
def quoted (text : Text) : Text := '"' :: (text ++ ['"'])

namespace Reader

variable {α : Type}

/-- A reader takes a text for a value, wherever it stands and whatever is behind it. -/
def Reads (read : Reader → Except Fault (α × Reader)) (text : Text) (value : α) : Prop :=
  ∀ rest place, ∃ behind, read ⟨text ++ rest, place⟩ = .ok (value, ⟨rest, behind⟩)

/-! ## Strings -/

theorem skipBlanks_cons {c : Char} (h : isBlank c = false) (rest : Text) (place : Position) :
    skipBlanks ⟨c :: rest, place⟩ = ⟨c :: rest, place⟩ := by
  simp [skipBlanks, h, Position.afterAll]

theorem stringBody_verbatim {text : Text} (h : IsVerbatim text) (rest : Text) (place : Position) :
    ∃ behind, stringBody (text ++ '"' :: rest) place = .ok (text, ⟨rest, behind⟩) := by
  induction text generalizing place with
  | nil => exact ⟨place.after '"', by simp [stringBody]⟩
  | cons c cs ih =>
    obtain ⟨hquote, hslash, hcontrol⟩ := h c List.mem_cons_self
    obtain ⟨behind, hrest⟩ := ih (fun d hd => h d (List.mem_cons_of_mem c hd)) (place.after c)
    refine ⟨behind, ?_⟩
    rw [List.cons_append, stringBody.eq_def]
    simp only [if_neg hquote, if_neg hslash, if_neg (Nat.not_lt.2 hcontrol), hrest]
    rfl

/-- A text that needs no escape is read back from between its quotes. -/
theorem reads_quoted {text : Text} (h : IsVerbatim text) (depth : Nat) :
    Reads (value depth) (quoted text) (.string (String.ofList text)) := by
  intro rest place
  obtain ⟨behind, hbody⟩ := stringBody_verbatim h rest (place.after '"')
  refine ⟨behind, ?_⟩
  have htext : quoted text ++ rest = '"' :: (text ++ '"' :: rest) := by simp [quoted]
  have hvalue (inner : Option (Reader → Except Fault (Json × Reader))) :
      valueOver inner ⟨quoted text ++ rest, place⟩
        = .ok (.string (String.ofList text), ⟨rest, behind⟩) := by
    rw [htext]
    simp [valueOver, skipBlanks_cons (c := '"') rfl, quotedString, next, hbody, Except.map]
  cases depth with
  | zero => exact hvalue none
  | succ depth => exact hvalue (some (value depth))

/-! ## Lists -/

/-- A text that begins an item of a list: neither with a blank nor with the end of the list. -/
def BeginsItem (text : Text) : Prop :=
  ∃ c more, text = c :: more ∧ isBlank c = false ∧ c ≠ ']'

theorem nextItem_end (first : Bool) (rest : Text) (place : Position) :
    nextItem first ⟨']' :: rest, place⟩ = .ok (none, ⟨rest, place.after ']'⟩) := by
  simp [nextItem, skipBlanks_cons (c := ']') rfl, next]

theorem nextItem_first {text : Text} (h : BeginsItem text) (rest : Text) (place : Position) :
    nextItem true ⟨text ++ rest, place⟩
      = .ok (some ⟨text ++ rest, place⟩, ⟨text ++ rest, place⟩) := by
  obtain ⟨c, more, rfl, hblank, hend⟩ := h
  simp [nextItem, skipBlanks_cons hblank]

theorem nextItem_further {text : Text} (h : BeginsItem text) (rest : Text) (place : Position) :
    ∃ behind, nextItem false ⟨", ".toList ++ (text ++ rest), place⟩
      = .ok (some ⟨text ++ rest, behind⟩, ⟨text ++ rest, behind⟩) := by
  obtain ⟨c, more, rfl, hblank, hend⟩ := h
  have hspace : isBlank ' ' = true := rfl
  have hskip : skipBlanks ⟨' ' :: c :: (more ++ rest), place.after ','⟩
      = ⟨c :: (more ++ rest), (place.after ',').after ' '⟩ := by
    simp [skipBlanks, hblank, hspace, Position.afterAll]
  refine ⟨(place.after ',').after ' ', ?_⟩
  simp [nextItem, skipBlanks_cons (c := ',') rfl, next, hskip, hend]

section Items

variable {read : Reader → Except Fault (α × Reader)} {write : α → Text} {values : List α}
  (hread : ∀ value ∈ values, Reads read (write value) value)
  (hwrite : ∀ value ∈ values, BeginsItem (write value))
include hread hwrite

/-- Further items of a list, up to its closing bracket. -/
theorem items_further {fuel : Nat} (hfuel : values.length < fuel) (rest : Text)
    (place : Position) :
    ∃ behind, items read fuel false
        ⟨values.flatMap (fun value => ", ".toList ++ write value) ++ ']' :: rest, place⟩
      = .ok (values, ⟨rest, behind⟩) := by
  induction values generalizing fuel place with
  | nil =>
    obtain ⟨fuel, rfl⟩ := Nat.exists_eq_succ_of_ne_zero (Nat.ne_of_gt hfuel)
    exact ⟨place.after ']', by simp [items, nextItem_end, bind, Except.bind, pure, Except.pure]⟩
  | cons value values ih =>
    obtain ⟨fuel, rfl⟩ := Nat.exists_eq_succ_of_ne_zero (Nat.ne_of_gt (Nat.zero_lt_of_lt hfuel))
    obtain ⟨hvalue, hvalues⟩ := List.forall_mem_cons.1 hread
    obtain ⟨hbegin, hbegins⟩ := List.forall_mem_cons.1 hwrite
    -- an item, and what is behind it up to the end of the list
    let behind := values.flatMap (fun value => ", ".toList ++ write value) ++ ']' :: rest
    obtain ⟨first, hnext⟩ := nextItem_further hbegin behind place
    obtain ⟨second, hfirst⟩ := hvalue behind first
    obtain ⟨last, hrest⟩ := ih hvalues hbegins (Nat.lt_of_succ_lt_succ hfuel) second
    refine ⟨last, ?_⟩
    rw [List.flatMap_cons, List.append_assoc, List.append_assoc, items, hnext]
    simp only [bind, Except.bind, hfirst]
    rw [hrest]
    rfl

/-- The items of a list that are joined by commas and blanks, up to its closing bracket. -/
theorem items_join {fuel : Nat} (hfuel : values.length < fuel) (rest : Text) (place : Position) :
    ∃ behind, items read fuel true
        ⟨join ", ".toList (values.map write) ++ ']' :: rest, place⟩
      = .ok (values, ⟨rest, behind⟩) := by
  obtain ⟨fuel, rfl⟩ := Nat.exists_eq_succ_of_ne_zero (Nat.ne_of_gt (Nat.zero_lt_of_lt hfuel))
  cases values with
  | nil =>
    refine ⟨place.after ']', ?_⟩
    simp [items, join, nextItem_end, bind, Except.bind, pure, Except.pure]
  | cons value values =>
    obtain ⟨hvalue, hvalues⟩ := List.forall_mem_cons.1 hread
    obtain ⟨hbegin, hbegins⟩ := List.forall_mem_cons.1 hwrite
    let behind := values.flatMap (fun value => ", ".toList ++ write value) ++ ']' :: rest
    have hnext := nextItem_first hbegin behind place
    obtain ⟨second, hfirst⟩ := hvalue behind place
    obtain ⟨last, hrest⟩ := items_further hvalues hbegins (Nat.lt_of_succ_lt_succ hfuel) rest second
    refine ⟨last, ?_⟩
    rw [List.map_cons, join_cons, List.flatMap_map, List.append_assoc, items, hnext]
    simp only [bind, Except.bind, hfirst]
    rw [hrest]
    rfl

end Items

/-- Texts between quotes, with commas and blanks between them. -/
def quotedItems (texts : List String) : Text :=
  join ", ".toList (texts.map fun text => quoted text.toList)

theorem length_le_quotedItems (texts : List String) :
    texts.length ≤ (quotedItems texts).length := by
  cases texts with
  | nil => exact Nat.zero_le _
  | cons text texts =>
    have hfurther : texts.length ≤ (texts.flatMap fun text =>
        ", ".toList ++ quoted text.toList).length := by
      induction texts with
      | nil => exact Nat.zero_le _
      | cons text texts ih =>
        rw [List.flatMap_cons, List.length_append, List.length_cons]
        simp only [List.length_append, quoted, List.length_cons] at ih ⊢
        omega
    rw [quotedItems, List.map_cons, join_cons, List.flatMap_map, List.length_append,
      List.length_cons]
    have hfirst : 0 < (quoted text.toList).length := Nat.zero_lt_succ _
    omega

theorem reads_quotedItems {texts : List String} (h : ∀ text ∈ texts, IsVerbatim text.toList)
    (depth : Nat) :
    Reads (value (depth + 1)) ('[' :: (quotedItems texts ++ [']'])) (.ofStrings texts) := by
  intro rest place
  let write : Json → Text := fun value => quoted ((value.string?.getD "").toList)
  have hread : ∀ item ∈ texts.map Json.string, Reads (value depth) (write item) item := by
    intro item hitem
    obtain ⟨text, htext, rfl⟩ := List.mem_map.1 hitem
    have hreads := reads_quoted (h text htext) depth
    rwa [String.ofList_toList] at hreads
  have hwrite : ∀ item ∈ texts.map Json.string, BeginsItem (write item) :=
    fun item _ => ⟨'"', _, rfl, rfl, by decide⟩
  have hitems : (texts.map Json.string).map write = texts.map fun text => quoted text.toList := by
    simp [write, Json.string?]
  have hfuel : (texts.map Json.string).length
      < ('[' :: (quotedItems texts ++ ']' :: rest)).length + 1 := by
    have := length_le_quotedItems texts
    rw [List.length_map, List.length_cons, List.length_append]
    omega
  obtain ⟨behind, hlist⟩ := items_join hread hwrite hfuel rest (place.after '[')
  rw [hitems] at hlist
  refine ⟨behind, ?_⟩
  have htext : '[' :: (quotedItems texts ++ [']']) ++ rest
      = '[' :: (quotedItems texts ++ ']' :: rest) := by simp
  rw [htext, value, valueOver, skipBlanks_cons (c := '[') rfl]
  exact congrArg (Except.map fun found : List Json × Reader => (Json.array found.1, found.2)) hlist

end Reader

/-- A document that a reader takes for a value. -/
theorem Reader.Reads.parse_eq {text : Text} {found : Json}
    (h : Reads (value maxDepth) text found) : parse text = .ok found := by
  obtain ⟨behind, hvalue⟩ := h [] .start
  rw [List.append_nil] at hvalue
  unfold parse Reader.whole Reader.ofText
  rw [hvalue]
  rfl

theorem parse_quoted {text : String} (h : IsVerbatim text.toList) :
    parse (quoted text.toList) = .ok (.string text) := by
  have hreads := (Reader.reads_quoted h Reader.maxDepth).parse_eq
  rwa [String.ofList_toList] at hreads

theorem parse_quotedItems {texts : List String} (h : ∀ text ∈ texts, IsVerbatim text.toList) :
    parse ('[' :: (Reader.quotedItems texts ++ [']'])) = .ok (.ofStrings texts) :=
  (Reader.reads_quotedItems h (Reader.maxDepth - 1)).parse_eq

end HubRules.Json
