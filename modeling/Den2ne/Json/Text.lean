import Mathlib.Data.List.Basic
import Mathlib.Data.Nat.Notation

/-!
# JSON texts

The part of JSON that is made of strings without escapes, arrays and objects.
`Text t v` says that the characters `t` are a text of the value `v`. Values may
have white space around them, and members may have it around their names.
-/

namespace Json

inductive Value
  | str (s : List Char)
  | arr (items : List Value)
  | obj (members : List (List Char × Value))

/-- White space. -/
def Ws (w : List Char) : Prop := ∀ c ∈ w, c = ' ' ∨ c = '\t' ∨ c = '\n' ∨ c = '\r'

/-- Characters that stand for themselves in a string. -/
def Plain (s : List Char) : Prop := ∀ c ∈ s, c ≠ '"' ∧ c ≠ '\\' ∧ 32 ≤ c.toNat

instance (w : List Char) : Decidable (Ws w) := List.decidableBAll _ w

instance (s : List Char) : Decidable (Plain s) := List.decidableBAll _ s

def quoted (s : List Char) : List Char := '"' :: s ++ ['"']

mutual

inductive Text : List Char → Value → Prop
  | str {s} : Plain s → Text (quoted s) (.str s)
  | arr {t l w} : Items t l → Ws w → Text ('[' :: t ++ w ++ [']']) (.arr l)
  | obj {t l w} : Members t l → Ws w → Text ('{' :: t ++ w ++ ['}']) (.obj l)
  | ws {w t w' v} : Ws w → Text t v → Ws w' → Text (w ++ t ++ w') v

inductive Items : List Char → List Value → Prop
  | nil : Items [] []
  | single {t v} : Text t v → Items t [v]
  | cons {t v t' v' l} : Text t v → Items t' (v' :: l) → Items (t ++ ',' :: t') (v :: v' :: l)

inductive Members : List Char → List (List Char × Value) → Prop
  | nil : Members [] []
  | single {w k w' t v} : Ws w → Plain k → Ws w' → Text t v →
      Members (w ++ quoted k ++ w' ++ ':' :: t) [(k, v)]
  | cons {w k w' t v t' m l} : Ws w → Plain k → Ws w' → Text t v → Members t' (m :: l) →
      Members (w ++ quoted k ++ w' ++ ':' :: t ++ ',' :: t') ((k, v) :: m :: l)

end

theorem ws_nil : Ws [] := fun _ hc => nomatch hc

theorem Plain.append {s t : List Char} (hs : Plain s) (ht : Plain t) : Plain (s ++ t) := by
  intro c hc
  rcases List.mem_append.1 hc with hc | hc
  · exact hs c hc
  · exact ht c hc

theorem plain_flatMap {α : Type*} {l : List α} {f : α → List Char} (h : ∀ x ∈ l, Plain (f x)) :
    Plain (l.flatMap f) := by
  intro c hc
  obtain ⟨x, hx, hc⟩ := List.mem_flatMap.1 hc
  exact h x hx c hc

/-- White space before a value. -/
theorem Text.indent {w t : List Char} {v : Value} (hw : Ws w) (ht : Text t v) :
    Text (w ++ t) v := by
  have h := Text.ws hw ht ws_nil
  rwa [List.append_nil] at h

/-! ## Lists of texts -/

/-- Texts with commas between them. -/
def commas : List (List Char) → List Char
  | [] => []
  | [t] => t
  | t :: t' :: ts => t ++ ',' :: commas (t' :: ts)

/-- The items of an array, given one by one. -/
theorem items_commas {α : Type*} {text : α → List Char} {value : α → Value} {l : List α}
    (hl : ∀ x ∈ l, Text (text x) (value x)) : Items (commas (l.map text)) (l.map value) := by
  induction l with
  | nil => exact .nil
  | cons x l ih =>
      have hx := hl x List.mem_cons_self
      have hrest := ih fun y hy => hl y (List.mem_cons_of_mem _ hy)
      cases l with
      | nil => exact .single hx
      | cons y l => exact .cons hx hrest

/-- A member of an object as it is written, and its value. -/
structure Field where
  before : List Char
  name : List Char
  after : List Char
  text : List Char
  value : Value

namespace Field

def member (f : Field) : List Char := f.before ++ quoted f.name ++ f.after ++ ':' :: f.text

structure Valid (f : Field) : Prop where
  before : Ws f.before
  name : Plain f.name
  after : Ws f.after
  text : Text f.text f.value

/-- The members of an object, given one by one. -/
theorem members_commas {fs : List Field} (hfs : ∀ f ∈ fs, f.Valid) :
    Members (commas (fs.map member)) (fs.map fun f => (f.name, f.value)) := by
  induction fs with
  | nil => exact .nil
  | cons f fs ih =>
      obtain ⟨hbefore, hname, hafter, htext⟩ := hfs f List.mem_cons_self
      have hrest := ih fun g hg => hfs g (List.mem_cons_of_mem _ hg)
      cases fs with
      | nil => exact .single hbefore hname hafter htext
      | cons g fs => exact .cons hbefore hname hafter htext hrest

/-- An object as it is written, with white space before its end. -/
def object (fs : List Field) (w : List Char) : List Char :=
  '{' :: commas (fs.map member) ++ w ++ ['}']

theorem text_object {fs : List Field} {w : List Char} (hfs : ∀ f ∈ fs, f.Valid) (hw : Ws w) :
    Text (object fs w) (.obj (fs.map fun f => (f.name, f.value))) :=
  .obj (members_commas hfs) hw

end Field

end Json
