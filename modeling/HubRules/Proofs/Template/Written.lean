import HubRules.Proofs.Outcome
import HubRules.Proofs.Template.NameTags

/-!
# Written templates

A template that is written from a tree of variables and blocks, with plain text between
them, is read back as that tree (`parse_source`). Every stage of the reader has its own
lemma: the tags of a tree (`marksFrom_text`), the layout, in which plain text loses
nothing (`layout_text`), the nesting (`elementsFrom_pieces`), and before all of them the
shorthand for the current item (`spellOut_source`).
-/

namespace HubRules.Template

/-! ## Trees of tags -/

/-- Variables and blocks, each tag with the text after it. -/
inductive TagTree where
  | done
  | value (name after : Text) (rest : TagTree)
  | block (name inner : Text) (body : TagTree) (after : Text) (rest : TagTree)

namespace TagTree

/-- All names can be written, and what stands between the tags is plain text. -/
inductive Writable : TagTree → Prop where
  | done : Writable .done
  | value {name after : Text} {rest : TagTree} (takes : NameTag.value.Takes name)
      (plain : IsPlainText after) (next : Writable rest) : Writable (.value name after rest)
  | block {name inner after : Text} {body rest : TagTree} (isName : IsName name)
      (plainInner : IsPlainText inner) (within : Writable body) (plain : IsPlainText after)
      (next : Writable rest) : Writable (.block name inner body after rest)

/-- The tags of a tree with the text after them, the names of values spelled in a way. -/
def write (spell : Text → Text) : TagTree → Text
  | .done => []
  | .value name after rest =>
    NameTag.value.text (spell name) ++ (after ++ rest.write spell)
  | .block name inner body after rest =>
    NameTag.opening.text name ++ (inner ++ (body.write spell ++
      (NameTag.closing.text name ++ (after ++ rest.write spell))))

/-- The tags of a tree with all names spelled out. -/
def text (tree : TagTree) : Text := tree.write id

@[simp] theorem text_done : done.text = [] := rfl

@[simp] theorem text_value (name after : Text) (rest : TagTree) :
    (value name after rest).text = NameTag.value.text name ++ (after ++ rest.text) := rfl

@[simp] theorem text_block (name inner after : Text) (body rest : TagTree) :
    (block name inner body after rest).text =
      NameTag.opening.text name ++ (inner ++ (body.text ++
        (NameTag.closing.text name ++ (after ++ rest.text)))) := rfl

def size : TagTree → Nat
  | .done => 0
  | .value _ _ rest => rest.size + 1
  | .block _ _ body _ rest => body.size + (rest.size + 1) + 1

/-- The place of the closing tag of a block, from that of its opening tag. -/
def closingPlace (place : Position) (name inner : Text) (body : TagTree) : Position :=
  place.afterText (NameTag.opening.text name ++ (inner ++ body.text))

/-- The tags of a tree as a reader finds them, from a place on. -/
def marks (place : Position) : TagTree → List (Mark × Text)
  | .done => []
  | .value name after rest =>
    (⟨NameTag.value.tag name, place, false, false⟩, after) ::
      rest.marks (place.afterText (NameTag.value.text name ++ after))
  | .block name inner body after rest =>
    let closing := closingPlace place name inner body
    (⟨NameTag.opening.tag name, place, false, false⟩, inner) ::
      (body.marks (place.afterText (NameTag.opening.text name ++ inner)) ++
        (⟨NameTag.closing.tag name, closing, false, false⟩, after) ::
          rest.marks (closing.afterText (NameTag.closing.text name ++ after)))

end TagTree

/-! ## Reading the tags -/

theorem NameTag.atTag (kind : NameTag) (name rest : Text) : AtTag (kind.text name ++ rest) :=
  .inr ⟨_, kind.text_append name rest⟩

namespace TagTree

theorem atTag_text (tree : TagTree) {next : Text} (atTag : AtTag next) :
    AtTag (tree.text ++ next) := by
  cases tree with
  | done => exact atTag
  | value name after rest =>
    rw [text_value, List.append_assoc]
    exact NameTag.atTag _ _ _
  | block name inner body after rest =>
    rw [text_block, List.append_assoc]
    exact NameTag.atTag _ _ _

end TagTree

theorem Position.afterText_append (place : Position) (first second : Text) :
    place.afterText (first ++ second) = (place.afterText first).afterText second :=
  List.foldl_append

/-- A tag in front of plain text is one step of the reader. -/
theorem marksFrom_tag {kind : NameTag} {name : Text} (takes : kind.Takes name)
    {open_ stillOpen : List OpenBlock}
    (outside : open_.head?.any (·.kind == .verbatim) = false)
    (after : OpenBlock.after? open_ (kind.tag name) = some stillOpen)
    (stillOutside : stillOpen.head?.any (·.kind == .verbatim) = false)
    {between next : Text} (plain : IsPlainText between) (atTag : AtTag next) (limit : Nat)
    (place : Position) :
    marksFrom (limit + 1) place open_ (kind.text name ++ (between ++ next)) =
      (marksFrom limit (place.afterText (kind.text name ++ between)) stillOpen next).map
        ((⟨kind.tag name, place, false, false⟩, between) :: ·) := by
  have hahead := tagAhead_tag takes (between ++ next)
  have hgap := gap_append plain atTag
  have hwritten := Text.take_length_sub (kind.text name ++ between) next
  rw [List.append_assoc] at hwritten
  obtain ⟨c, more, heq⟩ : ∃ c more, kind.text name ++ (between ++ next) = c :: more :=
    ⟨_, _, kind.text_append name _⟩
  rw [heq] at hahead hwritten ⊢
  rw [marksFrom, outside, hahead]
  · simp only [Bool.false_eq_true, if_false, Except.bind, bind, after, stillOutside, hgap,
      hwritten]
    cases marksFrom limit (place.afterText (kind.text name ++ between)) stillOpen next <;> rfl
  · exact List.cons_ne_nil c more

/-- The tags of a tree are read one after the other, whatever blocks are open around them,
and the reader goes on behind them. -/
theorem marksFrom_text {tree : TagTree} (writable : tree.Writable) {open_ : List OpenBlock}
    (outside : open_.head?.any (·.kind == .verbatim) = false) {next : Text}
    (atTag : AtTag next) (limit : Nat) (place : Position) :
    marksFrom (tree.size + limit) place open_ (tree.text ++ next) =
      (marksFrom limit (place.afterText tree.text) open_ next).map (tree.marks place ++ ·) := by
  induction writable generalizing open_ next limit place with
  | done =>
    rw [TagTree.size, Nat.zero_add, TagTree.text_done]
    cases h : marksFrom limit place open_ next <;> simp [Position.afterText, h, Except.map,
      TagTree.marks]
  | @value name after rest takes plain _ ih =>
    have hlimit : (TagTree.value name after rest).size + limit = (rest.size + limit) + 1 := by
      simp only [TagTree.size]
      omega
    simp only [TagTree.text_value, List.append_assoc]
    rw [hlimit, marksFrom_tag takes outside rfl outside plain (rest.atTag_text atTag),
      ih outside atTag, Outcome.map_map]
    simp only [TagTree.marks, Position.afterText_append, List.cons_append]
  | @block name inner after body rest isName plainInner _ plain _ hbody ih =>
    have hafter : OpenBlock.after? (⟨.section, false⟩ :: open_) (NameTag.closing.tag name) =
        some open_ := by
      have hsymbols : name.all isSymbol = true := List.all_eq_true.2 isName.symbols
      simp [OpenBlock.after?, NameTag.tag, hsymbols]
    have takes (kind : NameTag) (h : kind ≠ .value) : kind.Takes name :=
      ⟨isName, fun heq => absurd heq h⟩
    have hclosing := NameTag.closing.atTag name (after ++ (rest.text ++ next))
    have hlimit : (TagTree.block name inner body after rest).size + limit =
        (body.size + ((rest.size + limit) + 1)) + 1 := by
      simp only [TagTree.size]
      omega
    simp only [TagTree.text_block, List.append_assoc]
    rw [hlimit, marksFrom_tag (takes .opening nofun) outside rfl rfl plainInner
        (body.atTag_text hclosing), hbody rfl hclosing,
      marksFrom_tag (takes .closing nofun) rfl hafter outside plain (rest.atTag_text atTag),
      ih outside atTag]
    simp only [Outcome.map_map, TagTree.marks, TagTree.closingPlace, Position.afterText_append,
      List.cons_append, List.append_assoc]

theorem NameTag.length_text_pos (kind : NameTag) (name : Text) :
    0 < (kind.text name).length :=
  Nat.succ_pos _

theorem TagTree.size_le (tree : TagTree) : tree.size ≤ tree.text.length := by
  induction tree with
  | done => exact Nat.zero_le _
  | value name after rest ih =>
    have htag := NameTag.value.length_text_pos name
    simp only [size, text_value, List.length_append]
    omega
  | block name inner body after rest hbody ih =>
    have hopening := NameTag.opening.length_text_pos name
    have hclosing := NameTag.closing.length_text_pos name
    simp only [size, text_block, List.length_append]
    omega

theorem read_text {first : Text} (plain : IsPlainText first) {tree : TagTree}
    (writable : tree.Writable) :
    Source.read (first ++ tree.text) =
      .ok ⟨first, tree.marks (Position.start.afterText first)⟩ := by
  have hend : AtTag [] := .inl rfl
  have hgap : gap (first ++ tree.text) = (first, tree.text) := by
    have := gap_append plain (tree.atTag_text hend)
    rwa [List.append_nil] at this
  have hwritten := Text.take_length_sub first tree.text
  -- the reader may take as many steps as the text has characters, and one more
  obtain ⟨limit, hlimit⟩ : ∃ limit, (first ++ tree.text).length + 1 = tree.size + limit := by
    have hsize := tree.size_le
    refine Nat.exists_eq_add_of_le ?_
    rw [List.length_append]
    omega
  have houtside : ([] : List OpenBlock).head?.any (·.kind == .verbatim) = false := rfl
  have hmarks := marksFrom_text writable houtside hend limit (Position.start.afterText first)
  have hnone : marksFrom limit ((Position.start.afterText first).afterText tree.text) [] [] =
      .ok [] := by
    simp [marksFrom]
  rw [List.append_nil, hnone, Except.map, List.append_nil] at hmarks
  simp only [Source.read, hgap, hwritten, hlimit, hmarks]
  rfl

/-! ## The layout -/

theorem isLineEnd_of_mem {text : Text} (plain : IsPlainText text) {c : Char} (h : c ∈ text) :
    isLineEnd c = false := by
  have hc := plain c h
  simp only [List.mem_cons, not_or] at hc
  simp [isLineEnd, hc.2.2.2.1, hc.2.2.2.2.1]

theorem startsAtLineEnd_plain {text : Text} (plain : IsPlainText text) :
    startsAtLineEnd false text = false := by
  unfold startsAtLineEnd
  split
  · rfl
  · next c more h =>
    exact isLineEnd_of_mem plain ((List.dropWhile_sublist isIndent).subset (h ▸ List.mem_cons_self))

theorem endsAtLineStart_plain {text : Text} (plain : IsPlainText text) :
    endsAtLineStart false text = false := by
  unfold endsAtLineStart
  split
  · rfl
  · next c more h =>
    have hmem : c ∈ text.reverse :=
      (List.dropWhile_sublist isIndent).subset (h ▸ List.mem_cons_self)
    exact isLineEnd_of_mem plain (List.mem_reverse.1 hmem)

/-- A tag that does not stand alone on its line leaves the text before it as it is. -/
theorem layoutFrom_tag (kind : NameTag) (name : Text) (place : Position) {first : Bool}
    {text next : Text} {rest : List (Mark × Text)}
    (alone : ((kind.tag name).mayStandAlone && startsAtLineEnd rest.isEmpty next
      && endsAtLineStart first text) = false) :
    layoutFrom .none first text ((⟨kind.tag name, place, false, false⟩, next) :: rest) =
      .text text :: .tag (kind.tag name) place :: layoutFrom .none false next rest := by
  have hafter : (Trimming.none.past text).afterTag (kind.tag name) false false = .none := by
    cases kind <;> simp [Trimming.past, Trimming.afterTag, Trimming.none, NameTag.tag]
  rw [layoutFrom, alone]
  cases kind <;> simp_all [Trimming.apply, Trimming.none, NameTag.tag]

/-- A tag of a name that trims nothing, in front of plain text. -/
def IsBare (entry : Mark × Text) : Prop :=
  IsPlainText entry.2 ∧ ∃ (kind : NameTag) (name : Text) (place : Position),
    entry.1 = ⟨kind.tag name, place, false, false⟩

theorem TagTree.Writable.isBare {tree : TagTree} (writable : tree.Writable) (place : Position) :
    ∀ entry ∈ tree.marks place, IsBare entry := by
  induction writable generalizing place with
  | done => exact nofun
  | value takes plain _ ih =>
    intro entry hentry
    rcases List.mem_cons.1 hentry with rfl | hentry
    · exact ⟨plain, _, _, _, rfl⟩
    · exact ih _ entry hentry
  | block isName plainInner _ plain _ hbody ih =>
    intro entry hentry
    rcases List.mem_cons.1 hentry with rfl | hentry
    · exact ⟨plainInner, _, _, _, rfl⟩
    rcases List.mem_append.1 hentry with hentry | hentry
    · exact hbody _ entry hentry
    rcases List.mem_cons.1 hentry with rfl | hentry
    · exact ⟨plain, _, _, _, rfl⟩
    · exact ih _ entry hentry

def pieces (marks : List (Mark × Text)) : List Piece :=
  marks.flatMap fun (mark, next) => [.tag mark.tag mark.place, .text next]

theorem pieces_cons (mark : Mark) (next : Text) (marks : List (Mark × Text)) :
    pieces ((mark, next) :: marks) = .tag mark.tag mark.place :: .text next :: pieces marks := rfl

theorem pieces_append (first second : List (Mark × Text)) :
    pieces (first ++ second) = pieces first ++ pieces second := List.flatMap_append

theorem layoutFrom_bare {text : Text} (plain : IsPlainText text) {marks : List (Mark × Text)}
    (bare : ∀ entry ∈ marks, IsBare entry) :
    layoutFrom .none false text marks = .text text :: pieces marks := by
  induction marks generalizing text with
  | nil => simp [layoutFrom, Trimming.apply, Trimming.none, pieces]
  | cons entry rest ih =>
    obtain ⟨plainNext, kind, name, place, hmark⟩ := bare entry List.mem_cons_self
    obtain ⟨mark, next⟩ := entry
    obtain rfl : mark = _ := hmark
    have hrest := ih plainNext fun other hother => bare other (List.mem_cons_of_mem _ hother)
    rw [layoutFrom_tag kind name place (by rw [endsAtLineStart_plain plain, Bool.and_false]),
      hrest]
    rfl

/-- No tag of a tree stands alone on its line: a block has two of them. -/
theorem layout_text (first : Text) {tree : TagTree} (writable : tree.Writable)
    (place : Position) :
    (⟨first, tree.marks place⟩ : Source).layout = .text first :: pieces (tree.marks place) := by
  have bare := writable.isBare place
  unfold Source.layout
  cases writable with
  | done => simp [layoutFrom, Trimming.apply, Trimming.none, pieces, TagTree.marks]
  | value takes plainAfter next =>
    rw [TagTree.marks] at bare ⊢
    rw [layoutFrom_tag .value _ place rfl, layoutFrom_bare plainAfter fun entry hentry =>
      bare entry (List.mem_cons_of_mem _ hentry)]
    rfl
  | block isName plainInner within plainAfter next =>
    rw [TagTree.marks] at bare ⊢
    have hmore (before : List (Mark × Text)) (entry : Mark × Text) (behind : List (Mark × Text)) :
        (before ++ entry :: behind).isEmpty = false := by
      simp
    rw [layoutFrom_tag .opening _ place (by simp [hmore, startsAtLineEnd_plain plainInner]),
      layoutFrom_bare plainInner fun entry hentry => bare entry (List.mem_cons_of_mem _ hentry)]
    rfl

/-! ## Nesting -/

def textElements (text : Text) : List Element := if text.isEmpty then [] else [.text text]

/-- The elements of a tree, from a place on. -/
def TagTree.elements (place : Position) : TagTree → List Element
  | .done => []
  | .value name after rest =>
    .output place (.path (.ofName name)) true ::
      (textElements after ++
        rest.elements (place.afterText (NameTag.value.text name ++ after)))
  | .block name inner body after rest =>
    let within := place.afterText (NameTag.opening.text name ++ inner)
    let closing := closingPlace place name inner body
    .block (some place) ⟨name, [], []⟩ [] (textElements inner ++ body.elements within) none ::
      (textElements after ++
        rest.elements (closing.afterText (NameTag.closing.text name ++ after)))

section Nesting

variable (read : List Element) (open_ : List Pending) (more : List Piece)

theorem elementsFrom_text (text : Text) :
    elementsFrom read open_ (.text text :: more) =
      elementsFrom ((textElements text).reverse ++ read) open_ more := by
  rw [elementsFrom, textElements]
  split <;> rfl

theorem elementsFrom_value (name : Text) (place : Position) :
    elementsFrom read open_ (.tag (NameTag.value.tag name) place :: more) =
      elementsFrom (.output place (.path (.ofName name)) true :: read) open_ more := rfl

theorem elementsFrom_opening (name : Text) (place : Position) :
    elementsFrom read open_ (.tag (NameTag.opening.tag name) place :: more) =
      elementsFrom [] (⟨.section, some place, ⟨name, [], []⟩, [], read, none⟩ :: open_) more :=
  rfl

/-- The tag that closes a block ends it, whatever is open around it. -/
theorem elementsFrom_closing (before : List Element) (name : Text) (place closing : Position) :
    elementsFrom read (⟨.section, some place, ⟨name, [], []⟩, [], before, none⟩ :: open_)
        (.tag (NameTag.closing.tag name) closing :: more) =
      elementsFrom (.block (some place) ⟨name, [], []⟩ [] read.reverse none :: before) open_
        more := by
  cases open_ <;> simp [elementsFrom, NameTag.tag, Pending.closingName, Pending.closeAll,
    Pending.close]

/-- The pieces of a tree are nested into its elements, behind those read already and inside
the blocks that are open. -/
theorem elementsFrom_pieces (tree : TagTree) (place : Position) :
    elementsFrom read open_ (pieces (tree.marks place) ++ more) =
      elementsFrom ((tree.elements place).reverse ++ read) open_ more := by
  -- along the tree: a block reads its body with one more block open, and closes that
  induction tree generalizing read open_ more place with
  | done => rfl
  | value name after rest ih =>
    simp only [TagTree.marks, pieces_cons, List.cons_append, elementsFrom_value,
      elementsFrom_text, ih]
    simp only [TagTree.elements, List.reverse_cons, List.reverse_append, List.append_assoc,
      List.singleton_append]
  | block name inner body after rest hbody ih =>
    simp only [TagTree.marks, pieces_cons, pieces_append, List.cons_append, List.append_assoc,
      elementsFrom_opening, elementsFrom_text, hbody, elementsFrom_closing, ih]
    simp only [TagTree.elements, List.append_nil, List.reverse_cons, List.reverse_append,
      List.reverse_reverse, List.append_assoc, List.singleton_append]

end Nesting

/-! ## The current item -/

/-- The current item is written as a single dot. -/
def shorthand (name : Text) : Text := if name = "this".toList then ['.'] else name

/-- The tags of a tree with the current item written as a single dot. -/
def TagTree.source (tree : TagTree) : Text := tree.write shorthand

def spellOut (text : Text) : Text :=
  Text.replaceAll "\x7b\x7b.\x7d\x7d".toList "\x7b\x7bthis\x7d\x7d".toList text

theorem spellOut_run {run : Text} (h : '\x7b' ∉ run) (rest : Text) :
    spellOut (run ++ rest) = run ++ spellOut rest :=
  Text.replaceAll_run h rest

theorem spellOut_plain {text : Text} (plain : IsPlainText text) (rest : Text) :
    spellOut (text ++ rest) = text ++ spellOut rest :=
  spellOut_run (fun h => plain _ h List.mem_cons_self) rest

theorem spellOut_shorthand (rest : Text) :
    spellOut (NameTag.value.text ['.'] ++ rest) =
      NameTag.value.text "this".toList ++ spellOut rest :=
  Text.replaceAll_append (by decide) rest

/-- The tag of a name is no shorthand. -/
theorem spellOut_tag (kind : NameTag) {name : Text} (isName : IsName name) (rest : Text) :
    spellOut (kind.text name ++ rest) = kind.text name ++ spellOut rest := by
  have hbrace : '\x7b' ∉ name := not_mem_symbols isName.symbols (by decide)
  have hdot : '.' ∉ name := not_mem_symbols isName.symbols (by decide)
  -- behind the braces stand neither a dot nor another brace
  obtain ⟨c, more, heq, hc⟩ : ∃ c more,
      kind.sign ++ (name ++ "\x7d\x7d".toList) = c :: more ∧ c ≠ '.' := by
    obtain ⟨d, ds, rfl⟩ := List.exists_cons_of_ne_nil isName.nonempty
    cases kind with
    | value => exact ⟨d, _, rfl, fun h => hdot (h ▸ List.mem_cons_self)⟩
    | opening => exact ⟨'#', _, rfl, by decide⟩
    | closing => exact ⟨'/', _, rfl, by decide⟩
  have hrun : '\x7b' ∉ c :: more := by
    rw [← heq]
    cases kind <;> simp [NameTag.sign, hbrace]
  have hfirst : ¬"\x7b\x7b.\x7d\x7d".toList <+: '\x7b' :: '\x7b' :: (c :: more ++ rest) := by
    simp [List.cons_prefix_cons, hc.symm]
  have hsecond : ¬"\x7b\x7b.\x7d\x7d".toList <+: '\x7b' :: (c :: more ++ rest) := by
    have : '\x7b' ≠ c := fun h => hrun (h ▸ List.mem_cons_self)
    simp [List.cons_prefix_cons, this]
  calc spellOut (kind.text name ++ rest)
      = spellOut ('\x7b' :: '\x7b' :: (c :: more ++ rest)) := by
        rw [NameTag.text, heq]
        rfl
    _ = '\x7b' :: '\x7b' :: spellOut (c :: more ++ rest) := by
        rw [spellOut, Text.replaceAll_cons hfirst, Text.replaceAll_cons hsecond, ← spellOut]
    _ = kind.text name ++ spellOut rest := by
        rw [spellOut_run hrun, NameTag.text, heq]
        rfl

theorem spellOut_source {tree : TagTree} (writable : tree.Writable) (rest : Text) :
    spellOut (tree.source ++ rest) = tree.text ++ spellOut rest := by
  unfold TagTree.source
  induction writable generalizing rest with
  | done => rfl
  | @value name after more takes plain _ ih =>
    have htag (behind : Text) : spellOut (NameTag.value.text (shorthand name) ++ behind) =
        NameTag.value.text name ++ spellOut behind := by
      unfold shorthand
      split
      · next h => rw [spellOut_shorthand, h]
      · exact spellOut_tag .value takes.isName behind
    simp only [TagTree.write, TagTree.text_value, List.append_assoc, htag, spellOut_plain plain,
      ih]
  | block isName plainInner _ plain _ hbody ih =>
    simp only [TagTree.write, TagTree.text_block, List.append_assoc, spellOut_tag _ isName,
      spellOut_plain plainInner, spellOut_plain plain, hbody, ih]

/-! ## Parsing -/

/-- A template that is written from a tree is read as the elements of the tree, each tag
with its place. -/
theorem parse_source {first : Text} (plain : IsPlainText first) {tree : TagTree}
    (writable : tree.Writable) :
    parse (first ++ tree.source) =
      .ok ⟨textElements first ++ tree.elements (Position.start.afterText first)⟩ := by
  have hspelled : spellOut (first ++ tree.source) = first ++ tree.text := by
    have htree := spellOut_source writable []
    rw [List.append_nil] at htree
    rw [spellOut_plain plain, htree]
    exact congrArg (first ++ ·) (List.append_nil _)
  have helements : elementsFrom [] []
      (.text first :: pieces (tree.marks (Position.start.afterText first))) =
      .ok (textElements first ++ tree.elements (Position.start.afterText first)) := by
    have hpieces := elementsFrom_pieces (textElements first).reverse [] [] tree
      (Position.start.afterText first)
    rw [List.append_nil] at hpieces
    rw [elementsFrom_text, List.append_nil, hpieces, elementsFrom, List.reverse_append,
      List.reverse_reverse, List.reverse_reverse]
  rw [spellOut] at hspelled
  simp only [parse, hspelled, read_text plain writable, layout_text first writable, helements]
  rfl

end HubRules.Template
