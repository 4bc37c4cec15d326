import Formula.Proofs.Expr.Display
import Formula.Proofs.Expr.Keys

/-!
# One text, one tree

Where the keys of a tree are free of the characters that a form writes between them, its text tells where the
text of every subtree ends (`spell_append_inj`). So trees with one text have the same shape and the same keys, and
differ at most in whether a leaf is a variable or an integer (`display_eq_iff_sameKeys`).
-/

namespace Formula

namespace DisplayForm

/-- The character behind which the operands of an operator start. -/
def opening : DisplayForm → Char
  | .input => '('
  | .full => '['

/-- The characters that may follow the text of an operand. -/
def closings : DisplayForm → List Char
  | .input => [' ', ')']
  | .full => [',', ']']

/-- The characters that tell keys apart. -/
def delimiters (form : DisplayForm) : List Char := form.opening :: form.closings

/-- A text ends here, or goes on as behind an operand. -/
def Closes (form : DisplayForm) (rest : List Char) : Prop := ∀ c ∈ rest.head?, c ∈ form.closings

theorem opening_not_mem_closings (form : DisplayForm) : form.opening ∉ form.closings := by
  cases form <;> decide

end DisplayForm

namespace Expr

/-- The same tree, except that a variable may stand for an integer with its key and the other way round. -/
inductive SameKeys : Expr → Expr → Prop where
  | op {key : String} {left right left' right' : Expr} (lefts : SameKeys left left')
      (rights : SameKeys right right') : SameKeys (.op key left right) (.op key left' right')
  | leaf {first second : Expr} (isLeaf : first.isLeaf = true) (isLeaf' : second.isLeaf = true)
      (same : first.key = second.key) : SameKeys first second

/-- No key has a character that tells keys apart. -/
def Plain (form : DisplayForm) (e : Expr) : Prop :=
  ∀ kind, ∀ key ∈ e.keys kind, ∀ c ∈ key.toList, c ∉ form.delimiters

/-- The variables are those leaves whose key starts with a sigil. -/
def Sigiled (e : Expr) : Prop :=
  (∀ key ∈ e.keys .var, key.toList.head? = some '$') ∧ ∀ key ∈ e.keys .int, key.toList.head? ≠ some '$'

/-! ### Keys -/

theorem key_mem_keys (e : Expr) : e.key ∈ e.keys e.kind := by
  cases e with
  | op key left right => exact mem_keys_op key left right
  | var key => exact List.mem_singleton_self key
  | int key => exact List.mem_singleton_self key

theorem Plain.own {form : DisplayForm} {e : Expr} (plain : e.Plain form) :
    ∀ c ∈ e.key.toList, c ∉ form.delimiters :=
  plain e.kind e.key (key_mem_keys e)

theorem Plain.operands {form : DisplayForm} {key : String} {left right : Expr}
    (plain : (Expr.op key left right).Plain form) : left.Plain form ∧ right.Plain form :=
  ⟨fun kind _ member => plain kind _ (keys_left_subset key left right kind member),
    fun kind _ member => plain kind _ (keys_right_subset key left right kind member)⟩

theorem Sigiled.operands {key : String} {left right : Expr} (sigiled : (Expr.op key left right).Sigiled) :
    left.Sigiled ∧ right.Sigiled := by
  obtain ⟨starts, startsNot⟩ := sigiled
  constructor
  · exact ⟨fun _ member => starts _ (keys_left_subset key left right .var member),
      fun _ member => startsNot _ (keys_left_subset key left right .int member)⟩
  · exact ⟨fun _ member => starts _ (keys_right_subset key left right .var member),
      fun _ member => startsNot _ (keys_right_subset key left right .int member)⟩

theorem SameKeys.eq {first second : Expr} (same : SameKeys first second) (sigiled : first.Sigiled)
    (sigiled' : second.Sigiled) : first = second := by
  induction same with
  | op _ _ lefts rights =>
    rw [lefts sigiled.operands.1 sigiled'.operands.1, rights sigiled.operands.2 sigiled'.operands.2]
  | @leaf first second isLeaf isLeaf' same =>
    cases first with
    | op key left right => cases isLeaf
    | var key =>
      cases second with
      | op key' left' right' => cases isLeaf'
      | var key' => exact congrArg Expr.var same
      | int key' =>
        cases same
        exact (sigiled'.2 key (key_mem_keys (.int key)) (sigiled.1 key (key_mem_keys (.var key)))).elim
    | int key =>
      cases second with
      | op key' left' right' => cases isLeaf'
      | var key' =>
        cases same
        exact (sigiled.2 key (key_mem_keys (.int key)) (sigiled'.1 key (key_mem_keys (.var key)))).elim
      | int key' => exact congrArg Expr.int same

theorem SameKeys.spell_eq {first second : Expr} (same : SameKeys first second) (form : DisplayForm) :
    first.spell form = second.spell form := by
  induction same with
  | op _ _ lefts rights => cases form <;> rw [spell, spell, lefts, rights]
  | leaf isLeaf isLeaf' same => rw [spell_of_isLeaf isLeaf, spell_of_isLeaf isLeaf', same]

/-! ### Where a text ends -/

section

variable {delimiters first second rest rest' : List Char}

theorem mem_of_mem_head?_cons {chars : List Char} {c : Char} (member : c ∈ chars) :
    ∀ other ∈ (c :: rest).head?, other ∈ chars := by
  rintro other ⟨⟩
  exact member

theorem eq_nil_of_delimited {extra : List Char} (plain : ∀ c ∈ first ++ extra, c ∉ delimiters)
    (ends : ∀ c ∈ (extra ++ rest).head?, c ∈ delimiters) : extra = [] := by
  cases extra with
  | nil => rfl
  | cons c extra => exact (plain c (List.mem_append_right _ List.mem_cons_self) (ends c rfl)).elim

/-- A run of other characters goes just as far as the first delimiter. -/
theorem append_inj_of_delimited (plain : ∀ c ∈ first, c ∉ delimiters) (plain' : ∀ c ∈ second, c ∉ delimiters)
    (ends : ∀ c ∈ rest.head?, c ∈ delimiters) (ends' : ∀ c ∈ rest'.head?, c ∈ delimiters)
    (same : first ++ rest = second ++ rest') : first = second ∧ rest = rest' := by
  rcases List.append_eq_append_iff.mp same with ⟨extra, rfl, rfl⟩ | ⟨extra, rfl, rfl⟩
  · obtain rfl := eq_nil_of_delimited plain' ends
    exact ⟨(List.append_nil first).symm, rfl⟩
  · obtain rfl := eq_nil_of_delimited plain ends'
    exact ⟨List.append_nil second, rfl⟩

end

theorem toList_spell_input (key : String) (left right : Expr) (rest : List Char) :
    ((Expr.op key left right).spell .input).toList ++ rest =
      '(' :: ((left.spell .input).toList ++
        ' ' :: (key.toList ++ ' ' :: ((right.spell .input).toList ++ ')' :: rest))) := by
  simp [spell]

theorem toList_spell_full (key : String) (left right : Expr) (rest : List Char) :
    ((Expr.op key left right).spell .full).toList ++ rest =
      key.toList ++ '[' :: ((left.spell .full).toList ++
        ',' :: ' ' :: ((right.spell .full).toList ++ ']' :: rest)) := by
  simp [spell]

variable {form : DisplayForm} {first second : Expr} {rest rest' : List Char}

theorem exists_opening (key : String) (left right : Expr) (plain : (Expr.op key left right).Plain form)
    (rest : List Char) : ∃ front behind, (∀ c ∈ front, c ∉ form.delimiters) ∧
      ((Expr.op key left right).spell form).toList ++ rest = front ++ form.opening :: behind := by
  cases form with
  | input => exact ⟨[], _, List.forall_mem_nil _, toList_spell_input key left right rest⟩
  | full => exact ⟨key.toList, _, plain.own, toList_spell_full key left right rest⟩

theorem delimited_of_closes (ends : form.Closes rest) : ∀ c ∈ rest.head?, c ∈ form.delimiters :=
  fun c found => List.mem_cons_of_mem _ (ends c found)

/-- What follows a leaf cannot be mistaken for the operands of an operator. -/
theorem leaf_append_ne_op {leaf left right : Expr} {key : String} (isLeaf : leaf.isLeaf = true)
    (plain : leaf.Plain form) (plain' : (Expr.op key left right).Plain form) (ends : form.Closes rest) :
    (leaf.spell form).toList ++ rest ≠ ((Expr.op key left right).spell form).toList ++ rest' := by
  intro same
  obtain ⟨front, behind, free, opens⟩ := exists_opening key left right plain' rest'
  rw [spell_of_isLeaf isLeaf, opens] at same
  obtain ⟨-, rfl⟩ := append_inj_of_delimited plain.own free (delimited_of_closes ends)
    (mem_of_mem_head?_cons List.mem_cons_self) same
  exact form.opening_not_mem_closings (ends form.opening rfl)

theorem leaf_append_inj (isLeaf : first.isLeaf = true) (isLeaf' : second.isLeaf = true)
    (plain : first.Plain form) (plain' : second.Plain form) (ends : form.Closes rest)
    (ends' : form.Closes rest') (same : (first.spell form).toList ++ rest = (second.spell form).toList ++ rest') :
    SameKeys first second ∧ rest = rest' := by
  rw [spell_of_isLeaf isLeaf, spell_of_isLeaf isLeaf'] at same
  obtain ⟨keys, rests⟩ := append_inj_of_delimited plain.own plain'.own (delimited_of_closes ends)
    (delimited_of_closes ends') same
  exact ⟨.leaf isLeaf isLeaf' (String.toList_inj.mp keys), rests⟩

/-- A text in front of a closing character has one tree, up to the kinds of its leaves, and one end. -/
theorem spell_append_inj (plain : first.Plain form) (plain' : second.Plain form) (ends : form.Closes rest)
    (ends' : form.Closes rest') (same : (first.spell form).toList ++ rest = (second.spell form).toList ++ rest') :
    SameKeys first second ∧ rest = rest' := by
  induction first generalizing second rest rest' with
  | op key left right ihLeft ihRight =>
    cases second with
    | op key' left' right' =>
      obtain ⟨plainLeft, plainRight⟩ := plain.operands
      obtain ⟨plainLeft', plainRight'⟩ := plain'.operands
      cases form with
      | input =>
        have next : ' ' ∈ DisplayForm.input.closings := by decide
        have last : ')' ∈ DisplayForm.input.closings := by decide
        rw [toList_spell_input, toList_spell_input] at same
        -- Each operand and the key are followed by a delimiter, so they end at the same place in both texts.
        obtain ⟨lefts, same⟩ := ihLeft plainLeft plainLeft' (mem_of_mem_head?_cons next)
          (mem_of_mem_head?_cons next) (List.cons.inj same).2
        obtain ⟨keys, same⟩ := append_inj_of_delimited plain.own plain'.own
          (mem_of_mem_head?_cons (List.mem_cons_of_mem _ next))
          (mem_of_mem_head?_cons (List.mem_cons_of_mem _ next)) (List.cons.inj same).2
        obtain ⟨rights, same⟩ := ihRight plainRight plainRight' (mem_of_mem_head?_cons last)
          (mem_of_mem_head?_cons last) (List.cons.inj same).2
        have rests := (List.cons.inj same).2
        obtain rfl := String.toList_inj.mp keys
        exact ⟨.op lefts rights, rests⟩
      | full =>
        have next : ',' ∈ DisplayForm.full.closings := by decide
        have last : ']' ∈ DisplayForm.full.closings := by decide
        rw [toList_spell_full, toList_spell_full] at same
        obtain ⟨keys, same⟩ := append_inj_of_delimited plain.own plain'.own
          (mem_of_mem_head?_cons List.mem_cons_self) (mem_of_mem_head?_cons List.mem_cons_self) same
        obtain ⟨lefts, same⟩ := ihLeft plainLeft plainLeft' (mem_of_mem_head?_cons next)
          (mem_of_mem_head?_cons next) (List.cons.inj same).2
        obtain ⟨rights, same⟩ := ihRight plainRight plainRight' (mem_of_mem_head?_cons last)
          (mem_of_mem_head?_cons last) (List.cons.inj (List.cons.inj same).2).2
        have rests := (List.cons.inj same).2
        obtain rfl := String.toList_inj.mp keys
        exact ⟨.op lefts rights, rests⟩
    | var key' => exact (leaf_append_ne_op rfl plain' plain ends' same.symm).elim
    | int key' => exact (leaf_append_ne_op rfl plain' plain ends' same.symm).elim
  | var key =>
    cases second with
    | op key' left' right' => exact (leaf_append_ne_op rfl plain plain' ends same).elim
    | var key' => exact leaf_append_inj rfl rfl plain plain' ends ends' same
    | int key' => exact leaf_append_inj rfl rfl plain plain' ends ends' same
  | int key =>
    cases second with
    | op key' left' right' => exact (leaf_append_ne_op rfl plain plain' ends same).elim
    | var key' => exact leaf_append_inj rfl rfl plain plain' ends ends' same
    | int key' => exact leaf_append_inj rfl rfl plain plain' ends ends' same

/-- Trees without delimiters in their keys have one text just when they are the same up to the kinds of their
leaves, and when the kinds can be told from the keys, just when they are the same. -/
theorem display_eq_iff_sameKeys (plain : first.Plain form) (plain' : second.Plain form) :
    (first.display form = second.display form ↔ SameKeys first second) ∧
    (first.Sigiled → second.Sigiled → (first.display form = second.display form ↔ first = second)) := by
  rw [display_eq_spell, display_eq_spell]
  have ends : form.Closes [] := by
    rintro c ⟨⟩
  have reads (same : first.spell form = second.spell form) : SameKeys first second :=
    (spell_append_inj plain plain' ends ends (congrArg (·.toList ++ []) same)).1
  constructor
  · exact ⟨reads, fun same => same.spell_eq form⟩
  · intro sigiled sigiled'
    exact ⟨fun same => (reads same).eq sigiled sigiled', congrArg (spell form)⟩

/-- Other kinds for two leaves leave the text as it is, and another key does not. -/
theorem display_of_other_leaves :
    let tree := Expr.op "" (.op "&&" (.var "$x") (.int "1")) (.int "")
    let swapped := Expr.op "" (.op "&&" (.int "$x") (.int "1")) (.var "")
    let other := Expr.op "" (.op "&&" (.var "$x") (.int "2")) (.int "")
    tree.Plain .full ∧ swapped.Plain .full ∧ other.Plain .full ∧ tree.Sigiled ∧ other.Sigiled ∧
      tree.display .full = swapped.display .full ∧ SameKeys tree swapped ∧
      (tree.display .full = other.display .full ↔ tree = other) := by
  intro tree swapped other
  have plain : tree.Plain .full := fun kind => by cases kind <;> decide
  have plainSwapped : swapped.Plain .full := fun kind => by cases kind <;> decide
  have plainOther : other.Plain .full := fun kind => by cases kind <;> decide
  have sigiled : tree.Sigiled := ⟨by decide, by decide⟩
  have sigiledOther : other.Sigiled := ⟨by decide, by decide⟩
  have same : tree.display .full = swapped.display .full := by
    rw [display_eq_spell, display_eq_spell]
    rfl
  exact ⟨plain, plainSwapped, plainOther, sigiled, sigiledOther, same,
    (display_eq_iff_sameKeys plain plainSwapped).1.mp same,
    (display_eq_iff_sameKeys plain plainOther).2 sigiled sigiledOther⟩

end Expr

end Formula
