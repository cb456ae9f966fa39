import HubRules.Messages
import HubRules.Proofs.Text.Tokens
import HubRules.Url.Host
import Mathlib.Logic.Function.Basic

/-!
# Entities

The entities of HTML that stand for one character, by name or by number, and the text that is
read from another one by decoding them. Decoding undoes escaping (`unescapeHtml_escapeHtml`), so
that no two texts are escaped alike. An escaped text holds no sign that means something in HTML,
and every `&` in it begins an entity (`isEscaped_escapeHtml`). So the key in the markup of a
message ends where its attribute does, and is read back from it (`escapedMarkup_intact`).
-/

namespace HubRules

namespace Text

/-! ## Decoding -/

def numberedChar? (base : Nat) (digits : Text) : Option Char :=
  if digits.isEmpty then none
  else ((Host.numberOfBase base digits).filter fun n => decide n.isValidChar).map Char.ofNat

def wordEntities : List (Text × Char) :=
  [("amp".toList, '&'), ("lt".toList, '<'), ("gt".toList, '>'), ("quot".toList, '"')]

/-- The character of an entity, by what stands between its `&` and its semicolon: a word, or a
number behind `#`, which is hexadecimal behind `#x`. -/
def entityChar? : Text → Option Char
  | '#' :: 'x' :: digits => numberedChar? 16 digits
  | '#' :: digits => numberedChar? 10 digits
  | word => wordEntities.lookup word

/-- An entity at the head of a text: its character and its length. -/
def entity? : Text → Option (Char × Nat)
  | '&' :: rest => do
    let (name, _) ← cut ';' rest
    let c ← entityChar? name
    return (c, name.length + 2)
  | _ => none

def unescapeHtml (text : Text) : Text := replaceTokens entity? (fun c => [c]) text

def entityText (name : Text) : Text := '&' :: (name ++ [';'])

theorem entityText_ne_nil (name : Text) : entityText name ≠ [] := List.cons_ne_nil '&' _

theorem entity?_of_ne {c : Char} {rest : Text} (h : c ≠ '&') : entity? (c :: rest) = none := by
  unfold entity?
  split
  · next heq => exact absurd (List.cons.inj heq).1 h
  · rfl

theorem entity?_entityText {name : Text} {c : Char} (hname : ';' ∉ name)
    (hc : entityChar? name = some c) (rest : Text) :
    entity? (entityText name ++ rest) = some (c, (entityText name).length) := by
  have hcut : cut ';' (name ++ ';' :: rest) = some (name, rest) := cut_eq_some_iff.2 ⟨rfl, hname⟩
  simp [entityText, entity?, hcut, hc]

/-! ## Escaping -/

/-- The signs that mean something in HTML. -/
def htmlSigns : Text := "&<>\"'/`=".toList

def escapeNames : List Text :=
  ["amp", "lt", "gt", "quot", "#39", "#x2F", "#x60", "#x3D"].map String.toList

theorem escapeHtmlChar_of_not_mem {c : Char} (h : c ∉ htmlSigns) : escapeHtmlChar c = [c] := by
  unfold escapeHtmlChar
  split
  all_goals first | rfl | exact absurd (by decide) h

/-- A sign is escaped to an entity that stands for it. -/
theorem exists_escapeHtmlChar {c : Char} (h : c ∈ htmlSigns) :
    ∃ name ∈ escapeNames, escapeHtmlChar c = entityText name ∧ entityChar? name = some c := by
  revert c
  decide

theorem signs_not_mem_escapeNames :
    ∀ name ∈ escapeNames, (∀ c ∈ name, c ∉ htmlSigns) ∧ ';' ∉ name := by
  decide

theorem unescapeHtml_escapeHtml (text : Text) : unescapeHtml (escapeHtml text) = text := by
  unfold unescapeHtml
  induction text with
  | nil => rfl
  | cons c cs ih =>
    rw [escapeHtml_cons]
    by_cases hc : c ∈ htmlSigns
    · obtain ⟨name, hname, hescape, hchar⟩ := exists_escapeHtmlChar hc
      have hentity := entity?_entityText (signs_not_mem_escapeNames name hname).2 hchar
        (escapeHtml cs)
      rw [hescape, replaceTokens_token (entityText_ne_nil name) hentity, ih]
      rfl
    · have hne : c ≠ '&' := fun heq => hc (by rw [heq]; decide)
      rw [escapeHtmlChar_of_not_mem hc, List.singleton_append,
        replaceTokens_char (entity?_of_ne hne), ih]

theorem escapeHtml_injective : Function.Injective escapeHtml :=
  Function.LeftInverse.injective unescapeHtml_escapeHtml

/-! ## Escaped texts -/

/-- Whether a text stands for itself in HTML, in text and in attributes: it holds no sign but `&`,
and each `&` begins one of the entities that escaping writes. -/
structure IsEscaped (text : Text) : Prop where
  signs : ∀ c ∈ text, c ∈ htmlSigns → c = '&'
  entities : ∀ before rest, text = before ++ '&' :: rest →
    ∃ name ∈ escapeNames, entityText name <+: '&' :: rest

theorem IsEscaped.append {a b : Text} (ha : IsEscaped a) (hb : IsEscaped b) :
    IsEscaped (a ++ b) := by
  refine ⟨fun c hc => (List.mem_append.1 hc).elim (ha.signs c) (hb.signs c), ?_⟩
  intro before rest heq
  rcases List.append_eq_append_iff.1 heq with ⟨more, -, hb'⟩ | ⟨more, ha', hrest⟩
  · exact hb.entities more rest hb'
  · cases more with
    | nil => exact hb.entities [] rest hrest.symm
    | cons d ds =>
      obtain ⟨rfl, rfl⟩ := List.cons.inj hrest
      obtain ⟨name, hname, hprefix⟩ := ha.entities before ds ha'
      exact ⟨name, hname, hprefix.trans (List.prefix_append _ b)⟩

theorem isEscaped_entityText {name : Text} (hname : name ∈ escapeNames) :
    IsEscaped (entityText name) := by
  obtain ⟨hsigns, -⟩ := signs_not_mem_escapeNames name hname
  have hbehind : ∀ c ∈ name ++ [';'], c ∉ htmlSigns := by
    intro c hc
    rcases List.mem_append.1 hc with hc | hc
    · exact hsigns c hc
    · rw [List.mem_singleton.1 hc]
      decide
  refine ⟨fun c hc hsign => ?_, fun before rest heq => ?_⟩
  · rcases List.mem_cons.1 hc with hc | hc
    · exact hc
    · exact absurd hsign (hbehind c hc)
  · cases before with
    | nil => exact ⟨name, hname, heq ▸ List.prefix_rfl⟩
    | cons d ds =>
      have hmem : '&' ∈ name ++ [';'] := by
        rw [(List.cons.inj heq).2]
        simp
      exact absurd (by decide) (hbehind '&' hmem)

theorem isEscaped_escapeHtmlChar (c : Char) : IsEscaped (escapeHtmlChar c) := by
  by_cases hc : c ∈ htmlSigns
  · obtain ⟨name, hname, hescape, -⟩ := exists_escapeHtmlChar hc
    rw [hescape]
    exact isEscaped_entityText hname
  · rw [escapeHtmlChar_of_not_mem hc]
    refine ⟨by simp [hc], fun before rest heq => ?_⟩
    have hamp : '&' ∈ [c] := by simp [heq]
    rw [← List.mem_singleton.1 hamp] at hc
    exact absurd (by decide) hc

theorem isEscaped_escapeHtml (text : Text) : IsEscaped (escapeHtml text) := by
  induction text with
  | nil => exact ⟨by simp, by simp⟩
  | cons c cs ih => exact (isEscaped_escapeHtmlChar c).append ih

end Text

open Text

/-! ## Markup of messages -/

/-- The value of the attribute that holds the key of a message, and what stands behind the quote
that ends it. -/
def messageAttribute? (markup : Text) : Option (Text × Text) := do
  let rest ← dropStart? "<span data-message=\"".toList markup
  cut '"' rest

theorem messageAttribute?_markup (messages : Messages) (key : String) :
    messageAttribute? (messages.markup key).toList = some (escapeHtml key.toList,
      '>' :: (((messages.get? key).getD "").toList ++ "</span>".toList)) := by
  have hquote : '"' ∉ escapeHtml key.toList := by
    intro hmem
    exact absurd ((isEscaped_escapeHtml key.toList).signs '"' hmem (by decide)) (by decide)
  have hmarkup : (messages.markup key).toList = "<span data-message=\"".toList
      ++ (escapeHtml key.toList ++ '"' ::
        ('>' :: (((messages.get? key).getD "").toList ++ "</span>".toList))) := by
    have hend : "\">".toList = ['"', '>'] := rfl
    unfold Messages.markup
    simp only [String.toList_append, String.toList_ofList, hend, List.append_assoc,
      List.cons_append, List.nil_append]
  unfold messageAttribute?
  rw [hmarkup, dropStart?_append]
  exact cut_eq_some_iff.2 ⟨rfl, hquote⟩

/-- No two texts are escaped alike; an escaped text holds no sign of HTML but the `&` of the
entities that escaping writes, and a text is escaped part by part. So the attribute in the markup
of a message ends at the quote behind its key, whatever the key and the text of the message are,
and its value decodes to the key. -/
theorem escapedMarkup_intact :
    Function.Injective escapeHtml
      ∧ (∀ text, IsEscaped (escapeHtml text))
      ∧ (∀ a b, escapeHtml (a ++ b) = escapeHtml a ++ escapeHtml b)
      ∧ ∀ (messages : Messages) (key : String), ∃ value,
        messageAttribute? (messages.markup key).toList = some (value,
          '>' :: (((messages.get? key).getD "").toList ++ "</span>".toList))
        ∧ unescapeHtml value = key.toList :=
  ⟨escapeHtml_injective, isEscaped_escapeHtml, escapeHtml_append, fun messages key =>
    ⟨escapeHtml key.toList, messageAttribute?_markup messages key,
      unescapeHtml_escapeHtml key.toList⟩⟩

end HubRules
