import HubRules.Helper.UrlPath
import HubRules.Proofs.Outcome
import HubRules.Proofs.Url.HostName
import HubRules.Proofs.Url.Relative

/-!
# References in the path of a URL

The segments of a path are made of plain characters, references and variables of httpd
(`SegmentPiece`). Reading them as a URL encodes the braces of the variables and nothing else
(`percentEncode_toText`), and restoring the variables gives the segments back
(`restored_segments`). So `url` keeps such a path, whatever references stand where in it
(`url_keeps_references`).
-/

namespace HubRules.Helper

open Text

/-! ## The steps of `url` -/

/-- The server that the part of a text before its first slash names. -/
def server (text : Text) : Text := "http://".toList ++ ((cut '/' text).getD (text, [])).1

/-- What is resolved against the server. -/
def remainder (text : Text) : Text :=
  replaceFirst (server text) [] ((cut '/' text).getD (text, [])).2

/-- The path without its slash, if a `$` stands behind it. -/
def dropDollarSlash (path : Text) : Text :=
  match path with
  | '/' :: '$' :: more => '$' :: more
  | other => other

/-- What is written for the path of a URL. -/
def writtenPath (path : Text) : Text :=
  restoreVariables (dropDollarSlash (replaceFirst "//".toList ['/'] path))

theorem url_eq_ok_iff {text result : Text} : url text = .ok result ↔
    ∃ base target, Url.parse (server text) = .ok base ∧ base.join (remainder text) = .ok target
      ∧ writtenPath target.pathText = result := by
  have hsteps : url text = (Url.parse (server text)).mapError
        (.server ((cut '/' text).getD (text, [])).1) >>= fun base =>
      (base.join (remainder text)).mapError (.resolution (remainder text) (server text)) >>=
        fun target => .ok (writtenPath target.pathText) := rfl
  simp only [hsteps, Outcome.bind_eq_ok_iff, Outcome.mapError_eq_ok_iff, Except.ok.injEq,
    exists_and_left]

/-! ## Pieces of a segment -/

/-- A character that stands for itself in a segment. -/
def isPlainChar (c : Char) : Bool := c.isAlphanum || c == '_' || c == '-'

/-- A character that a reference begins with, behind its `$`. -/
def isReferenceChar (c : Char) : Bool := c.isAlphanum || c == '_'

/-- A piece of a segment: a plain character, a reference, or a variable in which httpd keeps what
was captured for a name. -/
inductive SegmentPiece where
  | plain (c : Char) (hc : isPlainChar c)
  | reference (c : Char) (hc : isReferenceChar c)
  | captured (name : Text) (hne : name ≠ []) (hname : ∀ c ∈ name, Reference.isNameChar c)

/-- A segment of a path. It has at least one piece. -/
structure Segment where
  first : SegmentPiece
  rest : List SegmentPiece

namespace SegmentPiece

def toText : SegmentPiece → Text
  | plain c _ => [c]
  | reference c _ => ['$', c]
  | captured name _ _ => "%\x7bENV:MATCH_".toList ++ name ++ ['\x7d']

def encoded : SegmentPiece → Text
  | plain c _ => [c]
  | reference c _ => ['$', c]
  | captured name _ _ => "%%7BENV:MATCH_".toList ++ name ++ "%7D".toList

theorem encoded_plain {c : Char} (hc : isPlainChar c) : (plain c hc).encoded = [c] := rfl

theorem encoded_captured {name : Text} (hne : name ≠ [])
    (hname : ∀ c ∈ name, Reference.isNameChar c) : (captured name hne hname).encoded
      = '%' :: ("%7BENV:MATCH_".toList ++ name ++ "%7D".toList) := by
  have hstart : "%%7BENV:MATCH_".toList = '%' :: "%7BENV:MATCH_".toList := by decide
  show "%%7BENV:MATCH_".toList ++ name ++ "%7D".toList = _
  rw [hstart, List.cons_append, List.cons_append]

theorem toText_captured {name : Text} (hne : name ≠ [])
    (hname : ∀ c ∈ name, Reference.isNameChar c) : (captured name hne hname).toText
      = '%' :: ("\x7bENV:MATCH_".toList ++ name ++ ['\x7d']) := by
  have hstart : "%\x7bENV:MATCH_".toList = '%' :: "\x7bENV:MATCH_".toList := by decide
  show "%\x7bENV:MATCH_".toList ++ name ++ ['\x7d'] = _
  rw [hstart, List.cons_append, List.cons_append]

/-- Whether the piece refers to something. -/
def refers : SegmentPiece → Bool
  | plain _ _ => false
  | reference _ _ => true
  | captured _ _ _ => true

end SegmentPiece

namespace Segment

def toText (segment : Segment) : Text :=
  (segment.first :: segment.rest).flatMap SegmentPiece.toText

def encoded (segment : Segment) : Text :=
  (segment.first :: segment.rest).flatMap SegmentPiece.encoded

end Segment

/-- Segments with slashes between them. -/
def joined (segments : List Segment) : Text := Text.join ['/'] (segments.map Segment.toText)

/-! ## Characters -/

def isPathChar (c : Char) : Bool := isPlainChar c || "$%:\x7b\x7d".toList.contains c

theorem lt_of_isPlainChar {c : Char} (h : isPlainChar c) : c.toNat < 128 := by
  simp only [isPlainChar, Bool.or_eq_true, beq_iff_eq] at h
  rcases h with (h | rfl) | rfl
  · exact Url.lt_of_isAlphanum h
  · decide
  · decide

theorem isPlainChar_of_isReferenceChar {c : Char} (h : isReferenceChar c) : isPlainChar c := by
  unfold isPlainChar
  rw [show (c.isAlphanum || c == '_') = true from h]
  rfl

theorem isPlainChar_of_isNameChar {c : Char} (h : Reference.isNameChar c) : isPlainChar c := by
  unfold Reference.isNameChar at h
  unfold isPlainChar Char.isAlphanum
  grind

theorem of_isPlainChar {p : Char → Prop}
    (hall : ∀ n < 128, isPlainChar (Char.ofNat n) → p (Char.ofNat n)) {c : Char}
    (h : isPlainChar c) : p c :=
  Host.of_ascii (p := fun c => isPlainChar c → p c) hall (lt_of_isPlainChar h) h

theorem isPathChar_of_isPlainChar {c : Char} (h : isPlainChar c) : isPathChar c := by
  rw [isPathChar, h]
  rfl

theorem bounds_of_isPathChar {c : Char} (h : isPathChar c) :
    32 < c.toNat ∧ Url.isSlash true c = false ∧ c ≠ '?' ∧ c ≠ '#' := by
  rcases Bool.or_eq_true_iff.1 h with h | h
  · exact of_isPlainChar (p := fun c => 32 < c.toNat ∧ Url.isSlash true c = false ∧ c ≠ '?'
      ∧ c ≠ '#') (by decide) h
  · have hsigns : ∀ d ∈ "$%:\x7b\x7d".toList,
        32 < d.toNat ∧ Url.isSlash true d = false ∧ d ≠ '?' ∧ d ≠ '#' := by decide
    exact hsigns c (List.contains_iff_mem.1 h)

theorem isPlain_of_isPlainChar {c : Char} (h : isPlainChar c) : Url.isPlain Url.inPath c :=
  of_isPlainChar (p := fun c => Url.isPlain Url.inPath c) (by decide) h

theorem SegmentPiece.isPathChar_of_mem {piece : SegmentPiece} :
    ∀ c ∈ piece.toText, isPathChar c := by
  cases piece with
  | plain d hd =>
    intro c hc
    rw [List.mem_singleton.1 hc]
    exact isPathChar_of_isPlainChar hd
  | reference d hd =>
    intro c hc
    rcases List.mem_cons.1 hc with rfl | hc
    · decide
    · rw [List.mem_singleton.1 hc]
      exact isPathChar_of_isPlainChar (isPlainChar_of_isReferenceChar hd)
  | captured name hne hname =>
    intro c hc
    rcases List.mem_append.1 hc with hc | hc
    · rcases List.mem_append.1 hc with hc | hc
      · have hstart : ∀ d ∈ "%\x7bENV:MATCH_".toList, isPathChar d := by decide
        exact hstart c hc
      · exact isPathChar_of_isPlainChar (isPlainChar_of_isNameChar (hname c hc))
    · rw [List.mem_singleton.1 hc]
      decide

namespace Segment

theorem isPathChar_of_mem {segment : Segment} : ∀ c ∈ segment.toText, isPathChar c := by
  intro c hc
  obtain ⟨piece, -, hc⟩ := List.mem_flatMap.1 hc
  exact SegmentPiece.isPathChar_of_mem c hc

theorem exists_toText_eq (segment : Segment) : ∃ c cs, segment.toText = c :: cs := by
  unfold toText
  rw [List.flatMap_cons]
  cases segment.first <;> exact ⟨_, _, rfl⟩

end Segment

theorem of_mem_joined {segments : List Segment} {c : Char} (h : c ∈ joined segments) :
    c = '/' ∨ isPathChar c := by
  refine (mem_of_mem_join h).imp_right ?_
  rintro ⟨part, hpart, hc⟩
  obtain ⟨segment, -, rfl⟩ := List.mem_map.1 hpart
  exact Segment.isPathChar_of_mem c hc

/-! ## Encoding -/

theorem SegmentPiece.percentEncode_toText (piece : SegmentPiece) :
    percentEncode Url.inPath piece.toText = piece.encoded := by
  cases piece with
  | plain c hc =>
    refine Url.percentEncode_of_isPlain fun d hd => ?_
    rw [List.mem_singleton.1 hd]
    exact isPlain_of_isPlainChar hc
  | reference c hc =>
    refine Url.percentEncode_of_isPlain fun d hd => ?_
    rcases List.mem_cons.1 hd with rfl | hd
    · decide
    · rw [List.mem_singleton.1 hd]
      exact isPlain_of_isPlainChar (isPlainChar_of_isReferenceChar hc)
  | captured name hne hname =>
    have hplain : Url.IsPlain Url.inPath name := fun c hc =>
      isPlain_of_isPlainChar (isPlainChar_of_isNameChar (hname c hc))
    calc percentEncode Url.inPath ("%\x7bENV:MATCH_".toList ++ name ++ ['\x7d'])
        = percentEncode Url.inPath "%\x7bENV:MATCH_".toList ++ percentEncode Url.inPath name
          ++ percentEncode Url.inPath ['\x7d'] := by
          simp only [percentEncode, List.flatMap_append]
      _ = "%%7BENV:MATCH_".toList ++ name ++ "%7D".toList := by
          rw [Url.percentEncode_of_isPlain hplain]
          rfl

namespace Segment

theorem percentEncode_toText (segment : Segment) :
    percentEncode Url.inPath segment.toText = segment.encoded := by
  unfold toText encoded percentEncode
  rw [List.flatMap_assoc]
  exact congrArg (List.flatMap · _) (funext SegmentPiece.percentEncode_toText)

theorem encoded_ne_nil (segment : Segment) : segment.encoded ≠ [] := by
  obtain ⟨c, cs, htext⟩ := segment.exists_toText_eq
  rw [← percentEncode_toText]
  intro hnil
  rw [Url.eq_nil_of_percentEncode hnil] at htext
  cases htext

theorem slash_not_mem_encoded (segment : Segment) : '/' ∉ segment.encoded := by
  rw [← percentEncode_toText]
  intro hmem
  rcases Url.mem_percentEncode hmem with hsign | ⟨hmem, -⟩
  · exact absurd hsign (by decide)
  · exact absurd (isPathChar_of_mem _ hmem) (by decide)

/-- No segment stands for a directory: none begins with a dot or an encoded one. -/
theorem not_dots (segment : Segment) :
    Url.isSingleDot segment.toText = false ∧ Url.isDoubleDot segment.toText = false := by
  apply Url.not_dots_of_start
  intro dot rest hdot heq
  unfold toText lowerAscii at heq
  rw [List.flatMap_cons] at heq
  cases hfirst : segment.first with
  | plain c hc =>
    have hlower : c.toLower ≠ '.' ∧ c.toLower ≠ '%' :=
      of_isPlainChar (p := fun c => c.toLower ≠ '.' ∧ c.toLower ≠ '%') (by decide) hc
    rw [hfirst] at heq
    rcases hdot with rfl | rfl
    · exact hlower.1 (List.cons.inj heq).1
    · exact hlower.2 (List.cons.inj heq).1
  | reference c hc =>
    rw [hfirst] at heq
    rcases hdot with rfl | rfl
    · exact absurd (List.cons.inj heq).1 (by decide)
    · exact absurd (List.cons.inj heq).1 (by decide)
  | captured name hne hname =>
    rw [hfirst] at heq
    rcases hdot with rfl | rfl
    · exact absurd (List.cons.inj heq).1 (by decide)
    · exact absurd (List.cons.inj (List.cons.inj heq).2).1 (by decide)

end Segment

/-! ## Reading as a URL -/

theorem head?_dropWhile_of_stop {c : Char} {rest : Text} (hscheme : Url.isSchemeChar c = false)
    (hcolon : c ≠ ':') : ((c :: rest).dropWhile Url.isSchemeChar).head? ≠ some ':' := by
  rw [List.dropWhile_cons, hscheme]
  simpa using hcolon

/-- A colon stands only in a variable, behind a character that no scheme holds. -/
theorem dropWhile_isSchemeChar_pieces (pieces : List SegmentPiece) {rest : Text}
    (hrest : (rest.dropWhile Url.isSchemeChar).head? ≠ some ':') :
    ((pieces.flatMap SegmentPiece.toText ++ rest).dropWhile Url.isSchemeChar).head?
      ≠ some ':' := by
  induction pieces with
  | nil => exact hrest
  | cons piece more ih =>
    rw [List.flatMap_cons, List.append_assoc]
    cases piece with
    | plain c hc =>
      have hcolon : c ≠ ':' := ne_of_test hc rfl
      cases hscheme : Url.isSchemeChar c with
      | false => exact head?_dropWhile_of_stop hscheme hcolon
      | true =>
        show ((c :: (more.flatMap SegmentPiece.toText ++ rest)).dropWhile _).head? ≠ _
        rw [List.dropWhile_cons, hscheme]
        exact ih
    | reference c hc => exact head?_dropWhile_of_stop (by decide) (by decide)
    | captured name hne hname => exact head?_dropWhile_of_stop (by decide) (by decide)

theorem exists_joined_eq (first : Segment) (more : List Segment) :
    ∃ rest, joined (first :: more) = first.toText ++ rest ∧ ∀ c ∈ rest.head?, c = '/' := by
  cases more with
  | nil => exact ⟨[], (List.append_nil _).symm, by simp⟩
  | cons next others =>
    exact ⟨'/' :: joined (next :: others), by simp [joined, Text.join], by simp⟩

theorem readScheme_joined (first : Segment) (more : List Segment) :
    Url.readScheme (joined (first :: more)) = none := by
  obtain ⟨rest, heq, hrest⟩ := exists_joined_eq first more
  rw [heq]
  refine Url.readScheme_eq_none (dropWhile_isSchemeChar_pieces _ ?_)
  cases rest with
  | nil => simp
  | cons c cs =>
    rw [hrest c rfl]
    exact head?_dropWhile_of_stop (by decide) (by decide)

theorem clean_joined (segments : List Segment) : Url.clean (joined segments) = joined segments := by
  refine Url.clean_of_all fun c hc => ?_
  rcases of_mem_joined hc with rfl | hc
  · decide
  · exact (bounds_of_isPathChar hc).1

/-- The segments are what stands between the slashes, each encoded by itself. -/
theorem readSegments_joined {segments : List Segment} (hne : segments ≠ []) :
    Url.readSegments true false [] (joined segments) = segments.map Segment.encoded := by
  have hslash : ∀ part ∈ segments.map Segment.toText, ∀ c ∈ part, Url.isSlash true c = false :=
    List.forall_mem_map.2 fun segment _ c hc =>
      (bounds_of_isPathChar (Segment.isPathChar_of_mem c hc)).2.1
  have hdots : ∀ part ∈ segments.map Segment.toText,
      Url.isSingleDot part = false ∧ Url.isDoubleDot part = false :=
    List.forall_mem_map.2 fun segment _ => segment.not_dots
  calc Url.readSegments true false [] (joined segments)
      = (segments.map Segment.toText).map (Url.keptSegment false) :=
        Url.readSegments_of_not_dot (by simpa using hne) hslash hdots
    _ = segments.map Segment.encoded := by
        rw [List.map_map]
        exact List.map_congr_left fun segment _ => segment.percentEncode_toText

theorem join_joined (host : Text) (first : Segment) (more : List Segment) :
    (Url.ofHost host).join (joined (first :: more))
      = .ok { Url.ofHost host with
          path := .segments ((first :: more).map Segment.encoded) } := by
  obtain ⟨c, cs, hfirst⟩ := first.exists_toText_eq
  obtain ⟨rest, heq, -⟩ := exists_joined_eq first more
  have hjoined : joined (first :: more) = c :: (cs ++ rest) := by rw [heq, hfirst]; rfl
  have hc : isPathChar c := Segment.isPathChar_of_mem c (hfirst ▸ List.mem_cons_self)
  obtain ⟨-, hslash, hquery, hfragment⟩ := bounds_of_isPathChar hc
  have htext : ∀ d ∈ c :: (cs ++ rest), d ≠ '?' ∧ d ≠ '#' := by
    intro d hd
    rw [← hjoined] at hd
    rcases of_mem_joined hd with rfl | hd
    · decide
    · exact (bounds_of_isPathChar hd).2.2
  have hrelative := @Url.readRelative_path (Url.ofHost host) c (cs ++ rest)
    ⟨hfragment, hquery, hslash⟩ htext
  unfold Url.join Url.read
  dsimp only
  rw [clean_joined, readScheme_joined]
  show Url.readRelative (Url.ofHost host) (joined (first :: more)) = _
  rw [hjoined, hrelative, ← hjoined]
  show Except.ok { Url.ofHost host with
    path := .segments (Url.readSegments true false [] (joined (first :: more))) } = _
  rw [readSegments_joined (by simp)]

/-! ## Restoring variables -/

def writeVariable (variable_ : Text) : Text := "%\x7b".toList ++ variable_ ++ ['\x7d']

theorem encodedVariable?_of_ne {c : Char} {rest : Text} (h : c ≠ '%') :
    encodedVariable? (c :: rest) = none := by
  have hstart : dropStart? "%%7BENV:MATCH_".toList (c :: rest) = none := by
    cases hdrop : dropStart? "%%7BENV:MATCH_".toList (c :: rest) with
    | none => rfl
    | some behind => exact absurd (List.cons.inj (dropStart?_eq_some_iff.1 hdrop)).1 h
  unfold encodedVariable?
  rw [hstart]
  rfl

/-- A slash in front of a variable is dropped. -/
theorem restoreVariables_slash (rest : Text) : restoreVariables ('/' :: rest)
    = if (encodedVariable? rest).isSome then replaceTokens encodedVariable? writeVariable rest
      else '/' :: replaceTokens encodedVariable? writeVariable rest := by
  show replaceTokens encodedVariable? writeVariable
    (if (encodedVariable? rest).isSome then rest else '/' :: rest) = _
  split
  · rfl
  · exact replaceTokens_char (encodedVariable?_of_ne (by decide))

theorem dropDollarSlash_of_ne {c : Char} {rest : Text} (h : c ≠ '$') :
    dropDollarSlash ('/' :: c :: rest) = '/' :: c :: rest := by
  unfold dropDollarSlash
  split
  · next heq => exact absurd (List.cons.inj (List.cons.inj heq).2).1 h
  · rfl

/-- A variable is recognized where it was encoded. -/
theorem encodedVariable?_append {name : Text} (hne : name ≠ [])
    (hname : ∀ c ∈ name, Reference.isNameChar c) (rest : Text) :
    encodedVariable? ("%%7BENV:MATCH_".toList ++ name ++ "%7D".toList ++ rest)
      = some ("ENV:MATCH_".toList ++ name,
          ("%%7BENV:MATCH_".toList ++ name ++ "%7D".toList).length) := by
  have hrun : (name ++ ("%7D".toList ++ rest)).takeWhile Reference.isNameChar = name :=
    takeWhile_append_stop hname (by simp [Reference.isNameChar])
  have hempty : name.isEmpty = false := by simpa using hne
  unfold encodedVariable?
  rw [List.append_assoc, List.append_assoc, dropStart?_append, Option.bind_eq_bind,
    Option.bind_some, hrun]
  dsimp only
  rw [hempty, List.drop_left, dropStart?_append, List.length_append, List.length_append]
  rfl

theorem restored_piece (piece : SegmentPiece) (rest : Text) :
    replaceTokens encodedVariable? writeVariable (piece.encoded ++ rest)
      = piece.toText ++ replaceTokens encodedVariable? writeVariable rest := by
  cases piece with
  | plain c hc =>
    have hpercent : c ≠ '%' := ne_of_test hc rfl
    exact replaceTokens_char (encodedVariable?_of_ne hpercent)
  | reference c hc =>
    have hpercent : c ≠ '%' := ne_of_test hc rfl
    show replaceTokens _ _ ('$' :: c :: rest) = '$' :: c :: _
    rw [replaceTokens_char (encodedVariable?_of_ne (by decide)),
      replaceTokens_char (encodedVariable?_of_ne hpercent)]
    rfl
  | captured name hne hname =>
    have htoken := @replaceTokens_token _ encodedVariable? writeVariable _ rest _ (by simp)
      (encodedVariable?_append hne hname rest)
    show replaceTokens _ _ ("%%7BENV:MATCH_".toList ++ name ++ "%7D".toList ++ rest) = _
    rw [htoken]
    rfl

theorem restored_segment (segment : Segment) (rest : Text) :
    replaceTokens encodedVariable? writeVariable (segment.encoded ++ rest)
      = segment.toText ++ replaceTokens encodedVariable? writeVariable rest := by
  unfold Segment.encoded Segment.toText
  induction segment.first :: segment.rest with
  | nil => rfl
  | cons piece more ih =>
    rw [List.flatMap_cons, List.flatMap_cons, List.append_assoc, restored_piece, ih,
      List.append_assoc]

/-- The segments come back. -/
theorem restored_segments (segments : List Segment) :
    replaceTokens encodedVariable? writeVariable (Text.join ['/'] (segments.map Segment.encoded))
      = joined segments := by
  induction segments with
  | nil => rfl
  | cons segment rest ih =>
    cases rest with
    | nil =>
      have := restored_segment segment []
      simpa [joined, Text.join] using this
    | cons next more =>
      show replaceTokens _ _ (segment.encoded ++ ['/'] ++ Text.join ['/'] _) = _
      rw [List.append_assoc, restored_segment, List.singleton_append,
        replaceTokens_char (encodedVariable?_of_ne (by decide)), ih]
      simp [joined, Text.join]

/-- What is written for the path of the segments. -/
theorem writtenPath_segments (first : Segment) (more : List Segment) :
    writtenPath (UrlPath.segments ((first :: more).map Segment.encoded)).toText
      = if first.first.refers then joined (first :: more) else '/' :: joined (first :: more) := by
  have hsegments : ∀ part ∈ (first :: more).map Segment.encoded, part ≠ [] ∧ '/' ∉ part :=
    List.forall_mem_map.2 fun segment _ => ⟨segment.encoded_ne_nil, segment.slash_not_mem_encoded⟩
  have hrestored := restored_segments (first :: more)
  obtain ⟨rest, hrest⟩ : ∃ rest, Text.join ['/'] ((first :: more).map Segment.encoded)
      = first.first.encoded ++ rest := by
    obtain ⟨behind, heq⟩ := prefix_join ['/'] first.encoded (more.map Segment.encoded)
    refine ⟨first.rest.flatMap SegmentPiece.encoded ++ behind, ?_⟩
    rw [← List.append_assoc, List.map_cons, ← heq]
    rfl
  unfold writtenPath
  rw [replaceFirst_eq_self (by decide) (Url.not_infix_doubledSlash hsegments),
    Url.toText_segments (by simp)]
  rw [hrest] at hrestored ⊢
  cases hfirst : first.first with
  | plain c hc =>
    rw [hfirst] at hrestored
    have hdollar : c ≠ '$' := ne_of_test hc rfl
    have hpercent : c ≠ '%' := ne_of_test hc rfl
    rw [SegmentPiece.encoded_plain, List.singleton_append] at hrestored ⊢
    rw [dropDollarSlash_of_ne hdollar, restoreVariables_slash, encodedVariable?_of_ne hpercent,
      hrestored]
    rfl
  | reference c hc =>
    rw [hfirst] at hrestored
    exact hrestored
  | captured name hne hname =>
    rw [hfirst] at hrestored
    have hvariable :
        encodedVariable? ((SegmentPiece.captured name hne hname).encoded ++ rest) = _ :=
      encodedVariable?_append hne hname rest
    rw [SegmentPiece.encoded_captured, List.cons_append] at hrestored hvariable ⊢
    rw [dropDollarSlash_of_ne (by decide), restoreVariables_slash, hvariable, Option.isSome_some,
      if_pos rfl, hrestored]
    rfl

/-- A path of references is kept: it comes back with a slash in front, or without one if its first
segment begins with a reference. -/
theorem url_keeps_references {host : Text} (hne : host ≠ []) (hhost : ∀ c ∈ host, c.isLower)
    (first : Segment) (more : List Segment) :
    url (host ++ '/' :: joined (first :: more))
      = .ok (if first.first.refers then joined (first :: more)
        else '/' :: joined (first :: more)) := by
  have hcut : cut '/' (host ++ '/' :: joined (first :: more))
      = some (host, joined (first :: more)) :=
    cut_eq_some_iff.2 ⟨rfl, fun hmem => absurd (hhost _ hmem) (by decide)⟩
  have hserver : server (host ++ '/' :: joined (first :: more)) = "http://".toList ++ host := by
    unfold server
    simp only [hcut, Option.getD_some]
  have hsegments : ∀ part ∈ (first :: more).map Segment.toText, part ≠ [] ∧ '/' ∉ part := by
    refine List.forall_mem_map.2 fun segment _ => ?_
    obtain ⟨c, cs, htext⟩ := segment.exists_toText_eq
    exact ⟨by simp [htext], fun hmem => absurd (Segment.isPathChar_of_mem _ hmem) (by decide)⟩
  have hremainder : remainder (host ++ '/' :: joined (first :: more)) = joined (first :: more) := by
    rw [remainder, hserver, hcut, Option.getD_some]
    refine replaceFirst_eq_self (by simp) fun hin => ?_
    -- the text of a server has two slashes, which no path of such segments has
    have hslashes : "//".toList <:+: "http://".toList ++ host := ⟨"http:".toList, host, rfl⟩
    have hpath : joined (first :: more)
        <:+ (UrlPath.segments ((first :: more).map Segment.toText)).toText := by
      rw [Url.toText_segments (by simp)]
      exact List.suffix_cons _ _
    exact Url.not_infix_doubledSlash hsegments ((hslashes.trans hin).trans hpath.isInfix)
  rw [url_eq_ok_iff, hserver, hremainder]
  exact ⟨_, _, Url.parse_ofHost (Host.isNormal_of_isLower hne hhost), join_joined host first more,
    writtenPath_segments first more⟩

/-- Two references beside each other begin the first segment, and two variables the second one. -/
theorem url_keeps_references_adjacent :
    "www".toList ≠ [] ∧ (∀ c ∈ "www".toList, c.isLower)
      ∧ url "www/$1%\x7bENV:MATCH_A\x7d/%\x7bENV:MATCH_B\x7d%\x7bENV:MATCH_C_D\x7d-x".toList
        = .ok "$1%\x7bENV:MATCH_A\x7d/%\x7bENV:MATCH_B\x7d%\x7bENV:MATCH_C_D\x7d-x".toList := by
  have hkept := @url_keeps_references "www".toList (by decide) (by decide)
    ⟨.reference '1' (by decide), [.captured "A".toList (by decide) (by decide)]⟩
    [⟨.captured "B".toList (by decide) (by decide),
      [.captured "C_D".toList (by decide) (by decide), .plain '-' (by decide),
        .plain 'x' (by decide)]⟩]
  exact ⟨by decide, by decide, hkept⟩

end HubRules.Helper
