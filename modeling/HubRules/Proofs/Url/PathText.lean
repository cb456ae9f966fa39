import HubRules.Proofs.Url.Encoding

/-!
# Paths and their texts

The segments that are read from a text are of a normal form (`readAbsolutePath_isNormal`): they
hold nothing that is encoded or divides segments, and none of them stands for a directory. Such a
path is read back from its text (`readAbsolutePath_toText`).
-/

namespace HubRules.Url

open Text

variable {special file : Bool}

def isSegmentChar (special : Bool) (c : Char) : Bool := isPlain inPath c && !isSlash special c

/-- A segment that stays as it is. -/
structure IsNormalSegment (special file : Bool) (segment : Text) : Prop where
  chars : ∀ c ∈ segment, isSegmentChar special c
  single : isSingleDot segment = false
  double : isDoubleDot segment = false
  kept : keptSegment file segment = segment

/-- A path that stays as it is. Only without a special scheme may it be empty. -/
structure IsNormalPath (special file : Bool) (segments : List Text) : Prop where
  nonempty : special → segments ≠ []
  segments : ∀ segment ∈ segments, IsNormalSegment special file segment

/-! ## Segments -/

theorem isNormalSegment_nil : IsNormalSegment special file [] where
  chars := by simp
  single := by decide
  double := by decide
  kept := by cases file <;> rfl

theorem isPlain_inPath_byteSigns : IsPlain inPath byteSigns := by
  unfold IsPlain
  decide

theorem isSegmentChar_of_mem_byteSigns {c : Char} (h : c ∈ byteSigns) :
    isSegmentChar special c := by
  have hall : ∀ d ∈ byteSigns, isSegmentChar special d := by cases special <;> decide
  exact hall c h

theorem isDriveLetter_iff {segment : Text} :
    isDriveLetter segment ↔ ∃ a b, segment = [a, b] ∧ a.isAlpha ∧ (b = ':' ∨ b = '|') := by
  unfold isDriveLetter
  split
  · next a b =>
    simp only [Bool.and_eq_true, Bool.or_eq_true, beq_iff_eq]
    constructor
    · exact fun h => ⟨a, b, rfl, h⟩
    · rintro ⟨_, _, heq, h⟩
      obtain ⟨rfl, hrest⟩ := List.cons.inj heq
      obtain ⟨rfl, -⟩ := List.cons.inj hrest
      exact h
  · next hlong =>
    constructor
    · exact fun h => absurd h Bool.false_ne_true
    · rintro ⟨a, b, rfl, -⟩
      exact absurd rfl (hlong a b)

theorem isNormalSegment_driveLetter {a : Char} (h : a.isAlpha) :
    IsNormalSegment special file [a, ':'] := by
  have hletter : isSegmentChar true a ∧ isSegmentChar false a ∧ isSingleDot [a, ':'] = false
      ∧ isDoubleDot [a, ':'] = false :=
    Host.of_ascii (p := fun a => a.isAlpha → isSegmentChar true a ∧ isSegmentChar false a
      ∧ isSingleDot [a, ':'] = false ∧ isDoubleDot [a, ':'] = false) (by decide)
      (lt_of_isAlpha h) h
  obtain ⟨htrue, hfalse, hsingle, hdouble⟩ := hletter
  have hchars : ∀ c ∈ [a, ':'], isSegmentChar special c := by
    intro c hc
    rcases List.mem_cons.1 hc with rfl | hc
    · cases special
      · exact hfalse
      · exact htrue
    · rw [List.mem_singleton.1 hc]
      cases special <;> decide
  refine ⟨hchars, hsingle, hdouble, ?_⟩
  cases file with
  | false => exact percentEncode_of_isPlain fun c hc => (Bool.and_eq_true_iff.1 (hchars c hc)).1
  | true =>
    unfold keptSegment
    rw [if_pos (by simp [isDriveLetter, h])]
    rfl

/-- What is kept of a segment stays as it is from then on. -/
theorem keptSegment_isNormal {segment : Text} (hslash : ∀ c ∈ segment, isSlash special c = false)
    (hsingle : isSingleDot segment = false) (hdouble : isDoubleDot segment = false) :
    IsNormalSegment special file (keptSegment file segment) := by
  unfold keptSegment
  split
  · next hdrive =>
    obtain ⟨a, b, rfl, ha, -⟩ := isDriveLetter_iff.1 (Bool.and_eq_true_iff.1 hdrive).2
    exact isNormalSegment_driveLetter ha
  · next hdrive =>
    refine ⟨fun c hc => ?_, isSingleDot_percentEncode hsingle,
      isDoubleDot_percentEncode hdouble, ?_⟩
    · rcases mem_percentEncode hc with hsign | ⟨hmem, hplain⟩
      · exact isSegmentChar_of_mem_byteSigns hsign
      · rw [isSegmentChar, hplain, hslash c hmem]
        rfl
    · unfold keptSegment
      split
      · next hencoded =>
        -- a drive letter holds no signs of bytes, so it was one before
        have hletter := (Bool.and_eq_true_iff.1 hencoded).2
        have hsame : percentEncode inPath segment = segment := by
          obtain ⟨a, b, heq, ha, hb⟩ := isDriveLetter_iff.1 hletter
          refine percentEncode_eq_self ?_
          rw [heq]
          simp only [List.mem_cons, List.not_mem_nil, or_false, not_or]
          constructor
          · rintro rfl
            exact absurd ha (by decide)
          · rintro rfl
            exact absurd hb (by decide)
        rw [hsame] at hencoded
        exact absurd hencoded hdrive
      · exact percentEncode_of_isPlain (isPlain_percentEncode isPlain_inPath_byteSigns segment)

/-- Normal segments are kept while more are read. -/
theorem addSegments_isNormal {segments done : List Text}
    (hsegments : ∀ segment ∈ segments, ∀ c ∈ segment, isSlash special c = false)
    (hdone : ∀ segment ∈ done, IsNormalSegment special file segment) :
    ∀ segment ∈ addSegments file done segments, IsNormalSegment special file segment := by
  have hleave : ∀ list : List Text, (∀ segment ∈ list, IsNormalSegment special file segment) →
      ∀ segment ∈ leaveDirectory file list, IsNormalSegment special file segment := by
    intro list hlist
    unfold leaveDirectory
    split
    · exact hlist
    · split
      · exact hlist
      · exact fun segment h => hlist segment (List.mem_cons_of_mem _ h)
  induction segments generalizing done with
  | nil => exact hdone
  | cons segment rest ih =>
    have ih := fun {done} => @ih done fun s hs => hsegments s (List.mem_cons_of_mem segment hs)
    have hkept : isDoubleDot segment = false → isSingleDot segment = false →
        IsNormalSegment special file (keptSegment file segment) :=
      fun hdouble hsingle =>
        keptSegment_isNormal (hsegments segment List.mem_cons_self) hsingle hdouble
    cases rest with
    | nil =>
      unfold addSegments
      split
      · exact List.forall_mem_cons.2 ⟨isNormalSegment_nil, hleave done hdone⟩
      · next hdouble =>
        split
        · exact List.forall_mem_cons.2 ⟨isNormalSegment_nil, hdone⟩
        · next hsingle =>
          exact List.forall_mem_cons.2
            ⟨hkept (by simpa using hdouble) (by simpa using hsingle), hdone⟩
    | cons next more =>
      show ∀ s ∈ addSegments file _ (next :: more), IsNormalSegment special file s
      refine ih ?_
      split
      · exact hleave done hdone
      · next hdouble =>
        split
        · exact hdone
        · next hsingle =>
          exact List.forall_mem_cons.2
            ⟨hkept (by simpa using hdouble) (by simpa using hsingle), hdone⟩

theorem addSegments_ne_nil {segments done : List Text} (h : segments ≠ []) :
    addSegments file done segments ≠ [] := by
  induction segments generalizing done with
  | nil => exact absurd rfl h
  | cons segment rest ih =>
    cases rest with
    | nil =>
      unfold addSegments
      split
      · simp
      · split <;> simp
    | cons next more => exact ih (by simp)

theorem map_keptSegment {segments : List Text}
    (h : ∀ segment ∈ segments, IsNormalSegment special file segment) :
    segments.map (keptSegment file) = segments :=
  (List.map_congr_left fun segment hs => (h segment hs).kept).trans (List.map_id segments)

/-- Segments that stand for no directory are added one by one, as they are kept. -/
theorem addSegments_of_not_dot {segments done : List Text}
    (h : ∀ segment ∈ segments, isSingleDot segment = false ∧ isDoubleDot segment = false) :
    addSegments file done segments = (segments.map (keptSegment file)).reverse ++ done := by
  induction segments generalizing done with
  | nil => rfl
  | cons segment rest ih =>
    obtain ⟨hsingle, hdouble⟩ := h segment List.mem_cons_self
    have ih := fun {done} => @ih done fun s hs => h s (List.mem_cons_of_mem segment hs)
    cases rest with
    | nil =>
      unfold addSegments
      rw [hdouble, hsingle]
      rfl
    | cons next more =>
      show addSegments file (if isDoubleDot segment then leaveDirectory file done
        else if isSingleDot segment then done else keptSegment file segment :: done)
          (next :: more) = _
      rw [hdouble, hsingle]
      show addSegments file (keptSegment file segment :: done) (next :: more) = _
      rw [ih]
      simp

theorem addSegments_of_isNormal {segments done : List Text}
    (h : ∀ segment ∈ segments, IsNormalSegment special file segment) :
    addSegments file done segments = segments.reverse ++ done := by
  rw [addSegments_of_not_dot fun segment hs => ⟨(h segment hs).single, (h segment hs).double⟩,
    map_keptSegment h]

/-! ## Paths -/

theorem isSlash_of_mem_splitSlashes {text segment : Text}
    (h : segment ∈ splitSlashes special text) :
    ∀ c ∈ segment, isSlash special c = false := by
  intro c hc
  obtain ⟨d, -, heq⟩ := List.mem_map.1 (mem_of_mem_split h hc)
  split at heq
  · exact absurd (heq ▸ hc) (not_mem_of_mem_split h)
  · next hslash => rwa [heq, Bool.not_eq_true] at hslash

theorem readSegments_ne_nil {directory : List Text} {text : Text} :
    readSegments special file directory text ≠ [] := fun hnil =>
  addSegments_ne_nil (split_ne_nil _ _) (List.reverse_eq_nil_iff.1 hnil)

theorem readSegments_isNormal {directory : List Text}
    (h : ∀ segment ∈ directory, IsNormalSegment special file segment) (text : Text) :
    IsNormalPath special file (readSegments special file directory text) := by
  constructor
  · exact fun _ => readSegments_ne_nil
  · intro segment hsegment
    exact addSegments_isNormal (fun s hs => isSlash_of_mem_splitSlashes hs)
      (fun s hs => h s (List.mem_reverse.1 hs)) segment (List.mem_reverse.1 hsegment)

theorem readAbsolutePath_isNormal (text : Text) :
    IsNormalPath special file (readAbsolutePath special file text).1 := by
  unfold readAbsolutePath
  dsimp only
  split
  · split
    · exact ⟨by simp, by simpa using isNormalSegment_nil⟩
    · next hspecial => exact ⟨fun h => absurd h hspecial, by simp⟩
  · exact readSegments_isNormal (by simp) _

theorem toText_segments {segments : List Text} (hne : segments ≠ []) :
    (UrlPath.segments segments).toText = '/' :: Text.join ['/'] segments := by
  show segments.flatMap ('/' :: ·) = _
  induction segments with
  | nil => exact absurd rfl hne
  | cons segment rest ih =>
    cases rest with
    | nil => simp [Text.join]
    | cons next more =>
      rw [List.flatMap_cons, ih (by simp)]
      show _ = '/' :: (segment ++ ['/'] ++ Text.join ['/'] (next :: more))
      simp

theorem not_infix_doubledSlash {segments : List Text}
    (h : ∀ segment ∈ segments, segment ≠ [] ∧ '/' ∉ segment) :
    ¬"//".toList <:+: (UrlPath.segments segments).toText := by
  rintro ⟨before, behind, heq⟩
  cases segments with
  | nil => simp [UrlPath.toText] at heq
  | cons segment rest =>
    have htext : before ++ '/' :: '/' :: behind
        = [] ++ '/' :: Text.join ['/'] (segment :: rest) := by
      rw [List.nil_append, ← toText_segments (by simp), ← heq]
      simp
    -- the empty part between the two slashes is a segment, as a part stands before it
    have hparts := congrArg (split '/') htext
    rw [split_append, split_append, split_join (by simp) fun part hpart => (h part hpart).2]
      at hparts
    obtain ⟨first, more, hfirst⟩ := List.exists_cons_of_ne_nil (split_ne_nil '/' before)
    rw [hfirst] at hparts
    have hrest : more ++ split '/' ('/' :: behind) = segment :: rest := (List.cons.inj hparts).2
    have hmem : [] ∈ segment :: rest := by
      rw [← hrest]
      simp [split]
    exact (h [] hmem).1 rfl

theorem isSegmentChar_of_mem_toText {segments : List Text}
    (h : IsNormalPath special file segments) :
    ∀ c ∈ (UrlPath.segments segments).toText, c = '/' ∨ isSegmentChar special c := by
  intro c hc
  obtain ⟨segment, hsegment, hc⟩ := List.mem_flatMap.1 hc
  exact (List.mem_cons.1 hc).imp_right ((h.segments segment hsegment).chars c)

theorem lt_of_mem_segments {segments : List Text}
    (h : ∀ segment ∈ segments, IsNormalSegment special file segment) :
    ∀ c ∈ (UrlPath.segments segments).toText, 32 < c.toNat := by
  intro c hc
  obtain ⟨segment, hsegment, hc⟩ := List.mem_flatMap.1 hc
  rcases List.mem_cons.1 hc with rfl | hc
  · decide
  · exact lt_of_plain rfl (Bool.and_eq_true_iff.1 ((h segment hsegment).chars c hc)).1

theorem splitSlashes_join {segments : List Text} (hne : segments ≠ [])
    (hslash : ∀ segment ∈ segments, ∀ c ∈ segment, isSlash special c = false) :
    splitSlashes special (Text.join ['/'] segments) = segments := by
  have hsame : ((Text.join ['/'] segments).map fun c => if isSlash special c then '/' else c)
      = Text.join ['/'] segments := by
    refine (List.map_congr_left fun c hc => ?_).trans (List.map_id _)
    rcases mem_of_mem_join hc with rfl | ⟨segment, hsegment, hc⟩
    · exact ite_self _
    · rw [hslash segment hsegment c hc]
      rfl
  unfold splitSlashes
  rw [hsame]
  exact split_join hne fun segment hsegment hmem =>
    absurd (hslash segment hsegment '/' hmem) (by simp [isSlash])

theorem IsNormalSegment.isSlash_of_mem {segment : Text} (h : IsNormalSegment special file segment) :
    ∀ c ∈ segment, isSlash special c = false := by
  intro c hc
  have := (Bool.and_eq_true_iff.1 (h.chars c hc)).2
  rwa [Bool.not_eq_true'] at this

theorem readSegments_of_not_dot {directory segments : List Text} (hne : segments ≠ [])
    (hslash : ∀ segment ∈ segments, ∀ c ∈ segment, isSlash special c = false)
    (h : ∀ segment ∈ segments, isSingleDot segment = false ∧ isDoubleDot segment = false) :
    readSegments special file directory (Text.join ['/'] segments)
      = directory ++ segments.map (keptSegment file) := by
  unfold readSegments
  rw [splitSlashes_join hne hslash, addSegments_of_not_dot h]
  simp

/-- Segments are read back from what stands behind the first slash of their text. -/
theorem readSegments_join {segments : List Text} (hne : segments ≠ [])
    (h : ∀ segment ∈ segments, IsNormalSegment special file segment) :
    readSegments special file [] (Text.join ['/'] segments) = segments := by
  rw [readSegments_of_not_dot hne (fun segment hs => (h segment hs).isSlash_of_mem)
    fun segment hs => ⟨(h segment hs).single, (h segment hs).double⟩, map_keptSegment h,
    List.nil_append]

/-- A text that may stand behind a path: it is empty, or a query or a fragment begins there. -/
def IsTail (text : Text) : Prop := ∀ c ∈ text.head?, c = '?' ∨ c = '#'

/-- A path holds no sign of a query or a fragment, and one of them stands behind it. -/
theorem cutPath_spec (text : Text) :
    (cutPath text).1 ++ (cutPath text).2 = text ∧ (∀ c ∈ (cutPath text).1, c ≠ '?' ∧ c ≠ '#')
      ∧ IsTail (cutPath text).2 := by
  refine ⟨List.takeWhile_append_dropWhile, fun c hc => ?_, fun c hc => ?_⟩
  · have := List.all_eq_true.1 List.all_takeWhile c hc
    simpa using this
  · have := List.head?_dropWhile_not (fun c => c != '?' && c != '#') text
    rw [show (text.dropWhile fun c => c != '?' && c != '#').head? = some c from hc] at this
    simpa [Bool.and_eq_false_iff, -Bool.and_eq_false_imp] using this

theorem cutPath_append {path tail : Text} (hpath : ∀ c ∈ path, c ≠ '?' ∧ c ≠ '#')
    (htail : IsTail tail) : cutPath (path ++ tail) = (path, tail) := by
  have hinside : ∀ c ∈ path, (c != '?' && c != '#') = true := by
    intro c hc
    simp only [Bool.and_eq_true, bne_iff_ne]
    exact hpath c hc
  have hstop : ∀ c ∈ tail.head?, (c != '?' && c != '#') = false := by
    intro c hc
    rcases htail c hc with rfl | rfl <;> rfl
  unfold cutPath
  rw [takeWhile_append_stop hinside hstop, dropWhile_append_stop hinside hstop]

theorem ne_of_isSegmentChar {c : Char} (h : c = '/' ∨ isSegmentChar special c) :
    c ≠ '?' ∧ c ≠ '#' := by
  rcases h with rfl | h
  · decide
  · have hplain := (Bool.and_eq_true_iff.1 h).1
    exact ⟨ne_of_test hplain rfl, ne_of_test hplain rfl⟩

theorem readAbsolutePath_toText {segments : List Text} {tail : Text}
    (h : IsNormalPath special file segments) (htail : IsTail tail) :
    readAbsolutePath special file ((UrlPath.segments segments).toText ++ tail)
      = (segments, tail) := by
  have hcut := cutPath_append
    (fun c hc => ne_of_isSegmentChar (isSegmentChar_of_mem_toText h c hc)) htail
  unfold readAbsolutePath
  rw [hcut]
  cases segments with
  | nil =>
    cases special with
    | false => rfl
    | true => exact absurd rfl (h.nonempty rfl)
  | cons segment rest =>
    rw [toText_segments (by simp)]
    show (readSegments special file []
      (if isSlash special '/' then Text.join ['/'] (segment :: rest) else _), tail) = _
    rw [if_pos (by simp [isSlash]), readSegments_join (by simp) h.segments]

end HubRules.Url
