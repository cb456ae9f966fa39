import HubRules.Configuration.Routing
import HubRules.Proofs.Json.UniqueNames
import HubRules.Proofs.Routing.Evaluation

/-!
# Looking keys up in the file of a map

httpd reads the file of a map line by line up to the first one that begins with the key, and
answers with the word behind it (`valueIn?`). If the keys and texts of a table are words, its file
answers like the table, for keys that are there and for those that are not
(`valueIn?_render_eq_answer`).
-/

namespace HubRules

open Text

namespace LookupMap

variable {blank : Char → Bool} {mapping : Mapping} {key value line : Text}

/-! ## Lines -/

/-- The first word of a line. -/
def keyWord (blank : Char → Bool) (line : Text) : Text := line.takeWhile (!blank ·)

def valueWord (blank : Char → Bool) (line : Text) : Text :=
  ((line.dropWhile (!blank ·)).dropWhile blank).takeWhile (!blank ·)

/-- Whether a line is passed over: it is empty, or it begins with a number sign or a blank. -/
def isSkipped (blank : Char → Bool) (line : Text) : Bool :=
  line.head?.all fun c => c == '#' || blank c

/-- Whether a line holds the value of a key. -/
def answers (blank : Char → Bool) (key line : Text) : Bool :=
  !isSkipped blank line && keyWord blank line == key

/-- The value of a key in the file of a map. What counts as a blank in it is left open. -/
def valueIn? (blank : Char → Bool) (content key : Text) : Option Text :=
  ((split '\n' content).find? (answers blank key)).map (valueWord blank)

/-- A text that a blank ends: it is not empty and holds none. -/
def IsWord (blank : Char → Bool) (text : Text) : Prop := text ≠ [] ∧ ∀ c ∈ text, blank c = false

/-- A table whose keys and texts are words; no key begins with a number sign. -/
structure IsWritable (blank : Char → Bool) (mapping : Mapping) : Prop where
  keys : ∀ entry ∈ mapping.outputTexts,
    IsWord blank entry.1.toList ∧ entry.1.toList.head? ≠ some '#'
  texts : ∀ entry ∈ mapping.outputTexts, IsWord blank entry.2.toList

theorem takeWhile_word {rest : Text} (hword : IsWord blank value)
    (hrest : ∀ c ∈ rest.head?, blank c = true) :
    (value ++ rest).takeWhile (!blank ·) = value
      ∧ (value ++ rest).dropWhile (!blank ·) = rest := by
  have hinside : ∀ c ∈ value, (!blank c) = true := by
    intro c hc
    rw [hword.2 c hc]
    rfl
  have hstop : ∀ c ∈ rest.head?, (!blank c) = false := by
    intro c hc
    rw [hrest c hc]
    rfl
  exact ⟨takeWhile_append_stop hinside hstop, dropWhile_append_stop hinside hstop⟩

theorem keyWord_line (hspace : blank ' ') (hkey : IsWord blank key) :
    keyWord blank (key ++ ' ' :: value) = key :=
  (takeWhile_word hkey (by simpa using hspace)).1

theorem valueWord_line (hspace : blank ' ') (hkey : IsWord blank key)
    (hvalue : IsWord blank value) : valueWord blank (key ++ ' ' :: value) = value := by
  obtain ⟨c, cs, rfl⟩ := List.exists_cons_of_ne_nil hvalue.1
  have hc : blank c = false := hvalue.2 c List.mem_cons_self
  calc valueWord blank (key ++ ' ' :: c :: cs)
      = ((' ' :: c :: cs).dropWhile blank).takeWhile (!blank ·) := by
        rw [valueWord, (takeWhile_word hkey (by simpa using hspace)).2]
    _ = (c :: cs).takeWhile (!blank ·) := by simp [hspace, hc]
    _ = c :: cs := List.takeWhile_eq_self_iff.2 fun d hd => by simp [hvalue.2 d hd]

/-- A line is passed over only if its key begins with a blank or a number sign. -/
theorem isSkipped_line (hkey : IsWord blank key) (hsign : key.head? ≠ some '#') :
    isSkipped blank (key ++ ' ' :: value) = false := by
  obtain ⟨c, cs, rfl⟩ := List.exists_cons_of_ne_nil hkey.1
  have hc : blank c = false := hkey.2 c List.mem_cons_self
  have hne : c ≠ '#' := fun heq => hsign (by rw [heq]; rfl)
  simp [isSkipped, hc, hne]

/-! ## Files -/

def lineOf (entry : String × String) : Text := entry.1.toList ++ ' ' :: entry.2.toList

/-- The first line that answers a key is that of the first entry with the key. -/
theorem find?_lines {entries : List (String × String)} (hspace : blank ' ')
    (hkeys : ∀ entry ∈ entries, IsWord blank entry.1.toList ∧ entry.1.toList.head? ≠ some '#')
    (htexts : ∀ entry ∈ entries, IsWord blank entry.2.toList) (key : Text) :
    ((entries.map lineOf).find? (answers blank key)).map (valueWord blank)
      = (entries.lookup (String.ofList key)).map String.toList := by
  induction entries with
  | nil => rfl
  | cons entry rest ih =>
    obtain ⟨hkey, hsign⟩ := hkeys entry List.mem_cons_self
    have hvalue := htexts entry List.mem_cons_self
    have hrest := ih (fun e he => hkeys e (List.mem_cons_of_mem entry he))
      fun e he => htexts e (List.mem_cons_of_mem entry he)
    have hanswers : answers blank key (lineOf entry) = (entry.1.toList == key) := by
      unfold answers lineOf
      rw [isSkipped_line hkey hsign, keyWord_line hspace hkey]
      rfl
    rw [List.map_cons, List.find?_cons, hanswers, List.lookup_cons]
    by_cases heq : entry.1.toList = key
    · subst heq
      simp [lineOf, valueWord_line hspace hkey hvalue]
    · have hne : String.ofList key ≠ entry.1 := fun h => heq (by rw [← h, String.toList_ofList])
      rw [beq_eq_false_iff_ne.2 heq, beq_eq_false_iff_ne.2 hne]
      exact hrest

/-- The lines of a file are those of the entries; without entries there is one empty line. -/
theorem split_render (hline : blank '\n') (h : IsWritable blank mapping) :
    split '\n' (render mapping).toList
      = if mapping.outputTexts = [] then [[]] else mapping.outputTexts.map lineOf := by
  have hcontent : (render mapping).toList = join ['\n'] (mapping.outputTexts.map lineOf) := by
    rw [render, toList_intercalate, List.map_map]
    exact congrArg _ (List.map_congr_left fun entry _ => by simp [lineOf])
  split
  · next hempty =>
    rw [hcontent, hempty]
    rfl
  · next hentries =>
    rw [hcontent]
    refine split_join (by simpa using hentries) fun line hmem hend => ?_
    obtain ⟨entry, hentry, rfl⟩ := List.mem_map.1 hmem
    -- the end of a line is a blank, which stands in no word, and it is not the blank between them
    have hnot : ∀ word, IsWord blank word → '\n' ∉ word := by
      intro word hword hmem
      have := hword.2 '\n' hmem
      rw [hline] at this
      cases this
    simp only [lineOf, List.mem_append, List.mem_cons] at hend
    rcases hend with hend | hend | hend
    · exact hnot _ (h.keys entry hentry).1 hend
    · exact absurd hend (by decide)
    · exact hnot _ (h.texts entry hentry) hend

theorem lookup_outputTexts (mapping : Mapping) (name : String) :
    mapping.outputTexts.lookup name
      = (mapping.output.get? name).map fun value => String.ofList value.toPlainText := by
  unfold Mapping.outputTexts
  induction mapping.output with
  | nil => rfl
  | cons entry rest ih =>
    rw [List.map_cons, List.lookup_cons, Members.get?_cons, ih]
    by_cases h : name = entry.1
    · simp [h]
    · rw [beq_eq_false_iff_ne.2 h, if_neg h]

/-- What httpd finds for a key in the file of a map is what the table has for it, so that its
answer, with the entry's default where it finds nothing, is that of the table. It is so for every
class of blanks that has the space and the end of a line. -/
theorem valueIn?_render_eq_answer (hspace : blank ' ') (hline : blank '\n')
    (h : IsWritable blank mapping) (key : Text) :
    valueIn? blank (render mapping).toList key
        = (mapping.output.get? (String.ofList key)).map Json.toPlainText
      ∧ ∀ default_, (valueIn? blank (render mapping).toList key).getD default_
        = mapping.answer key default_ := by
  have hvalue : valueIn? blank (render mapping).toList key
      = (mapping.output.get? (String.ofList key)).map Json.toPlainText := by
    unfold valueIn?
    rw [split_render hline h]
    split
    · next hempty =>
      have hnone : mapping.output.get? (String.ofList key) = none := by
        have := lookup_outputTexts mapping (String.ofList key)
        rw [hempty] at this
        simpa using this.symm
      rw [hnone]
      rfl
    · rw [find?_lines hspace h.keys h.texts, lookup_outputTexts, Option.map_map]
      exact congrArg (Option.map · _) (funext fun value => String.toList_ofList)
  refine ⟨hvalue, fun default_ => ?_⟩
  rw [hvalue]
  rfl

/-- What httpd takes for a blank in the file of a map. -/
def isSpace (c : Char) : Bool := " \t\n\x0b\x0c\r".toList.contains c

/-- A table whose keys begin with each other, with values of several kinds. -/
def branchMapping : Mapping :=
  ⟨"$branch", some "master",
    [("ab", .number (.integer 7)), ("a", .string "main#1"), ("b", .bool true)]⟩

theorem valueIn?_render_eq_answer_branch :
    (render branchMapping = "ab 7\na main#1\nb true")
      ∧ valueIn? isSpace (render branchMapping).toList "a".toList = some "main#1".toList
      ∧ (valueIn? isSpace (render branchMapping).toList "abc".toList).getD "master".toList
        = "master".toList := by
  have hwritable : IsWritable isSpace branchMapping := by
    constructor <;> unfold IsWord <;> decide
  obtain ⟨hfound, -⟩ := valueIn?_render_eq_answer (by decide) (by decide) hwritable "a".toList
  obtain ⟨-, hmissed⟩ := valueIn?_render_eq_answer (by decide) (by decide) hwritable "abc".toList
  exact ⟨by decide, hfound.trans (by rfl), (hmissed "master".toList).trans (by rfl)⟩

end LookupMap

end HubRules
