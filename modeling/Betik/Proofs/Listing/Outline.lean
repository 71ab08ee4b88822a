/-
Listings tell outlines apart.

The forms of two trees from sources are equal only if their outlines are, since each word in
front of a list belongs to one kind of node.  A listing has a line for each statement: the
end of a list is read off the list, and the end of a comment is the end of the line, so a
comment of the program itself may hold any text.
-/
import Betik.Proofs.Listing.Legible

namespace Betik

/-! ## Heads -/

/-- Two kinds of nodes have two words. -/
theorem Form.nodup_heads :
    (Operator.all.map Operator.symbol ++ (Connective.all.map Connective.symbol ++
      heads)).Nodup := by
  decide +kernel

theorem Operator.symbol_inj {op op' : Operator} (h : op.symbol = op'.symbol) : op = op' :=
  List.inj_on_of_nodup_map (List.nodup_append.1 Form.nodup_heads).1 op.mem_all op'.mem_all h

theorem Connective.symbol_inj {c c' : Connective} (h : c.symbol = c'.symbol) : c = c' :=
  List.inj_on_of_nodup_map (List.nodup_append.1 (List.nodup_append.1 Form.nodup_heads).2.1).1
    c.mem_all c'.mem_all h

theorem Operator.symbol_ne_symbol (op : Operator) (c : Connective) : op.symbol ≠ c.symbol :=
  (List.nodup_append.1 Form.nodup_heads).2.2 _ (List.mem_map_of_mem op.mem_all) _
    (List.mem_append_left _ (List.mem_map_of_mem c.mem_all))

theorem Operator.symbol_ne_head (op : Operator) {head : String} (mem : head ∈ Form.heads) :
    op.symbol ≠ head :=
  (List.nodup_append.1 Form.nodup_heads).2.2 _ (List.mem_map_of_mem op.mem_all) _
    (List.mem_append_right _ mem)

theorem Connective.symbol_ne_head (c : Connective) {head : String} (mem : head ∈ Form.heads) :
    c.symbol ≠ head :=
  (List.nodup_append.1 (List.nodup_append.1 Form.nodup_heads).2.1).2.2 _
    (List.mem_map_of_mem c.mem_all) _ mem

theorem DataType.word_inj {type type' : DataType} (h : type.word = type'.word) : type = type' := by
  cases type <;> cases type' <;> first | rfl | exact absurd h (by decide)

/-! ## Trees of one form -/

theorem Literal.form_ne_list {value : Literal} {head : String} {items : List Form} :
    value.form ≠ .list head items := by
  cases value <;> nofun

theorem Literal.form_ne_note {value : Literal} {head s : String} :
    value.form ≠ .note head s := by
  cases value <;> nofun

theorem Form.names_inj {names names' : List String} (looks : ∀ name ∈ names, LooksLikeName name)
    (looks' : ∀ name ∈ names', LooksLikeName name) (h : Form.names names = Form.names names') :
    names = names' := by
  have nonempty : ¬LooksLikeName "" := fun empty => by
    obtain ⟨_, _, split, -⟩ := empty.exists_letter
    simp at split
  cases names with
  | nil =>
    cases names' with
    | nil => rfl
    | cons name' names' =>
      obtain ⟨rfl, -⟩ := Form.list.inj h
      exact absurd (looks' _ (List.mem_cons_self ..)) nonempty
  | cons name names =>
    cases names' with
    | nil =>
      obtain ⟨rfl, -⟩ := Form.list.inj h
      exact absurd (looks _ (List.mem_cons_self ..)) nonempty
    | cons name' names' =>
      obtain ⟨rfl, words⟩ := Form.list.inj h
      rw [List.map_injective_iff.2 (fun _ _ => Form.word.inj) words]

namespace Expr

mutual

theorem outline_of_form : ∀ e e' : Expr, e.Sourced → e'.Sourced → e.form = e'.form →
    e.outline = e'.outline
  | literal _ value, e', sourced, sourced', h => by
    cases e' with
    | literal _ value' => rw [outline, outline, Literal.form_inj h]
    | var _ name => exact Literal.outline_of_form_eq_word sourced sourced' h
    | prompt => exact absurd h Literal.form_ne_note
    | _ => exact absurd h Literal.form_ne_list
  | binary _ op lhs rhs, e', sourced, sourced', h => by
    cases e' with
    | literal => exact absurd h.symm Literal.form_ne_list
    | binary _ op' lhs' rhs' =>
      obtain ⟨same, left, right⟩ := by simpa [form] using h
      obtain rfl := Operator.symbol_inj same
      rw [outline, outline, outline_of_form lhs lhs' sourced.1 sourced'.1 left,
        outline_of_form rhs rhs' sourced.2 sourced'.2 right]
    | logical _ c => exact absurd (Form.list.inj h).1 (op.symbol_ne_symbol c)
    | assign | call => exact absurd (Form.list.inj h).1 (op.symbol_ne_head (by decide))
    | var | prompt => cases h
  | logical _ c lhs rhs, e', sourced, sourced', h => by
    cases e' with
    | literal => exact absurd h.symm Literal.form_ne_list
    | binary _ op => exact absurd (Form.list.inj h).1.symm (op.symbol_ne_symbol c)
    | logical _ c' lhs' rhs' =>
      obtain ⟨same, left, right⟩ := by simpa [form] using h
      obtain rfl := Connective.symbol_inj same
      rw [outline, outline, outline_of_form lhs lhs' sourced.1 sourced'.1 left,
        outline_of_form rhs rhs' sourced.2 sourced'.2 right]
    | assign | call => exact absurd (Form.list.inj h).1 (c.symbol_ne_head (by decide))
    | var | prompt => cases h
  | var _ name, e', sourced, sourced', h => by
    cases e' with
    | literal _ value => exact (Literal.outline_of_form_eq_word sourced' sourced h.symm).symm
    | var _ name' => rw [outline, outline, Form.word.inj h]
    | _ => cases h
  | assign _ name value, e', sourced, sourced', h => by
    cases e' with
    | literal => exact absurd h.symm Literal.form_ne_list
    | binary _ op => exact absurd (Form.list.inj h).1.symm (op.symbol_ne_head (by decide))
    | logical _ c => exact absurd (Form.list.inj h).1.symm (c.symbol_ne_head (by decide))
    | assign _ name' value' =>
      obtain ⟨rfl, same⟩ := by simpa [form] using h
      rw [outline, outline, outline_of_form value value' sourced.2 sourced'.2 same]
    | call => exact absurd (Form.list.inj h).1 (by decide)
    | var | prompt => cases h
  | call _ name args, e', sourced, sourced', h => by
    cases e' with
    | literal => exact absurd h.symm Literal.form_ne_list
    | binary _ op => exact absurd (Form.list.inj h).1.symm (op.symbol_ne_head (by decide))
    | logical _ c => exact absurd (Form.list.inj h).1.symm (c.symbol_ne_head (by decide))
    | assign => exact absurd (Form.list.inj h).1 (by decide)
    | call _ name' args' =>
      obtain ⟨rfl, same⟩ := by simpa [form] using h
      rw [outline, outline, outlineAll_of_form args args' sourced.2 sourced'.2 same]
    | var | prompt => cases h
  | prompt _ text, e', _, _, h => by
    cases e' with
    | literal => exact absurd h.symm Literal.form_ne_note
    | prompt _ text' => rw [outline, outline, (Form.note.inj h).2]
    | _ => cases h

theorem outlineAll_of_form : ∀ es es' : List Expr, SourcedAll es → SourcedAll es' →
    formAll es = formAll es' → outlineAll es = outlineAll es'
  | [], es', _, _, h => by
    cases es' with
    | nil => rfl
    | cons => cases h
  | e :: es, es', sourced, sourced', h => by
    cases es' with
    | nil => cases h
    | cons e' es' =>
      obtain ⟨first, others⟩ := List.cons.inj h
      rw [outlineAll, outlineAll, outline_of_form e e' sourced.1 sourced'.1 first,
        outlineAll_of_form es es' sourced.2 sourced'.2 others]

end

theorem form_of_isCommand {e : Expr} (h : e.isCommand) :
    ∃ head items, e.form = .list head items ∧ (head = "=" ∨ head = "call") := by
  cases e with
  | assign => exact ⟨_, _, rfl, .inl rfl⟩
  | call => exact ⟨_, _, rfl, .inr rfl⟩
  | _ => cases h

end Expr

/-- The word for the kind of statement that is written in this form; commands have none. -/
def Form.word? : Form → Option String
  | list head _ => if head = "=" ∨ head = "call" then none else some head
  | note head _ => some head
  | word _ | quoted _ => none

namespace Stmt

def word? : Stmt → Option String
  | declare .. => some "declare"
  | print .. => some "print"
  | cond .. => some "if"
  | loop .. => some "while"
  | function .. => some "function"
  | ret .. => some "return"
  | block .. => some "block"
  | expr .. => none
  | comment .. => some "comment"

theorem word?_form {s : Stmt} (h : s.Sourced) : s.form.word? = s.word? := by
  cases s with
  | expr _ value =>
    obtain ⟨head, items, form, command⟩ := Expr.form_of_isCommand h.1
    rw [Stmt.form, form, Form.word?, if_pos command]
    rfl
  | _ => rfl

/-- Statements of different kinds have different forms. -/
theorem word?_eq_word? {s s' : Stmt} (sourced : s.Sourced) (sourced' : s'.Sourced)
    (h : s.form = s'.form) : s.word? = s'.word? := by
  rw [← word?_form sourced, h, word?_form sourced']

mutual

theorem outline_of_form : ∀ s s' : Stmt, s.Sourced → s'.Sourced → s.form = s'.form →
    s.outline = s'.outline
  | declare _ name type init, s', sourced, sourced', h => by
    cases s' with
    | declare _ name' type' init' =>
      obtain ⟨rfl, word, same⟩ := by simpa [form] using h
      rw [outline, outline, DataType.word_inj word,
        init.outline_of_form init' sourced.2 sourced'.2 same]
    | _ => exact absurd (word?_eq_word? sourced sourced' h) (by simp [word?])
  | print _ value, s', sourced, sourced', h => by
    cases s' with
    | print _ value' =>
      rw [outline, outline, value.outline_of_form value' sourced sourced' (by simpa [form] using h)]
    | _ => exact absurd (word?_eq_word? sourced sourced' h) (by simp [word?])
  | ret _ value, s', sourced, sourced', h => by
    cases s' with
    | ret _ value' =>
      rw [outline, outline, value.outline_of_form value' sourced sourced' (by simpa [form] using h)]
    | _ => exact absurd (word?_eq_word? sourced sourced' h) (by simp [word?])
  | cond _ condition yes no, s', sourced, sourced', h => by
    cases s' with
    | cond _ condition' yes' no' =>
      obtain ⟨first, branch, other⟩ := by simpa [form] using h
      rw [outline, outline, condition.outline_of_form condition' sourced.1 sourced'.1 first,
        outline_of_form yes yes' sourced.2.1 sourced'.2.1 branch,
        outlineOption_of_form no no' sourced.2.2 sourced'.2.2 other]
    | _ => exact absurd (word?_eq_word? sourced sourced' h) (by simp [word?])
  | loop _ condition body, s', sourced, sourced', h => by
    cases s' with
    | loop _ condition' body' =>
      obtain ⟨first, inner⟩ := by simpa [form] using h
      rw [outline, outline, condition.outline_of_form condition' sourced.1 sourced'.1 first,
        outline_of_form body body' sourced.2 sourced'.2 inner]
    | _ => exact absurd (word?_eq_word? sourced sourced' h) (by simp [word?])
  | function _ name params body, s', sourced, sourced', h => by
    cases s' with
    | function _ name' params' body' =>
      obtain ⟨rfl, names, inner⟩ := by simpa [form] using h
      rw [outline, outline, Form.names_inj sourced.2.1 sourced'.2.1 names,
        outlineAll_of_form body body' sourced.2.2 sourced'.2.2 inner]
    | _ => exact absurd (word?_eq_word? sourced sourced' h) (by simp [word?])
  | block _ body, s', sourced, sourced', h => by
    cases s' with
    | block _ body' =>
      rw [outline, outline, outlineAll_of_form body body' sourced sourced' (Form.list.inj h).2]
    | _ => exact absurd (word?_eq_word? sourced sourced' h) (by simp [word?])
  | expr _ value, s', sourced, sourced', h => by
    cases s' with
    | expr _ value' => rw [outline, outline, value.outline_of_form value' sourced.2 sourced'.2 h]
    | _ => exact absurd (word?_eq_word? sourced sourced' h) (by simp [word?])
  | comment _ text, s', sourced, sourced', h => by
    cases s' with
    | comment _ text' => rw [outline, outline, (Form.note.inj h).2]
    | _ => exact absurd (word?_eq_word? sourced sourced' h) (by simp [word?])

theorem outlineOption_of_form : ∀ s s' : Option Stmt, SourcedOption s → SourcedOption s' →
    formOption s = formOption s' → outlineOption s = outlineOption s'
  | none, s', _, _, h => by
    cases s' with
    | none => rfl
    | some => cases h
  | some s, s', sourced, sourced', h => by
    cases s' with
    | none => cases h
    | some s' =>
      rw [outlineOption, outlineOption, outline_of_form s s' sourced sourced' (List.cons.inj h).1]

theorem outlineAll_of_form : ∀ ss ss' : List Stmt, SourcedAll ss → SourcedAll ss' →
    formAll ss = formAll ss' → outlineAll ss = outlineAll ss'
  | [], ss', _, _, h => by
    cases ss' with
    | nil => rfl
    | cons => cases h
  | s :: ss, ss', sourced, sourced', h => by
    cases ss' with
    | nil => cases h
    | cons s' ss' =>
      obtain ⟨first, others⟩ := List.cons.inj h
      rw [outlineAll, outlineAll, outline_of_form s s' sourced.1 sourced'.1 first,
        outlineAll_of_form ss ss' sourced.2 sourced'.2 others]

end

/-! ## Lines of a listing -/

/-- The texts that have to show their ends in a statement of the program itself.  A comment
ends with its line. -/
def lineQuotes : Stmt → List String
  | comment .. => []
  | s => s.quotes

theorem form_note_or_list {s : Stmt} (h : s.Sourced) :
    (∃ text, '\n' ∉ text.toList ∧ s.form = .note "comment" text) ∨
      (s.lineQuotes = s.quotes ∧ ∃ head items, s.form = .list head items) := by
  cases s with
  | comment _ text => exact .inl ⟨text, h, rfl⟩
  | expr _ value =>
    obtain ⟨head, items, form, -⟩ := Expr.form_of_isCommand h.1
    exact .inr ⟨rfl, head, items, form⟩
  | _ => exact .inr ⟨rfl, _, _, rfl⟩

/-- Comments end with their lines, and lists where they show it. -/
theorem read_line {s s' : Stmt} {r r' : List Char} (sourced : s.Sourced) (sourced' : s'.Sourced)
    (late : Late s.lineQuotes) (late' : Late s'.lineQuotes)
    (h : s.form.chars ++ '\n' :: r = s'.form.chars ++ '\n' :: r') :
    s.form = s'.form ∧ r = r' := by
  have legible (all : s.lineQuotes = s.quotes) := s.legible sourced (all ▸ late)
  have legible' (all : s'.lineQuotes = s'.quotes) := s'.legible sourced' (all ▸ late')
  obtain ⟨text, short, form⟩ | ⟨all, head, items, form⟩ := form_note_or_list sourced <;>
    obtain ⟨text', short', form'⟩ | ⟨all', head', items', form'⟩ := form_note_or_list sourced' <;>
    rw [form, form'] at h ⊢
  · -- two comments, of which nothing but the ends of their lines is known
    simp only [Form.chars, List.cons_append, List.append_assoc, List.nil_append,
      List.cons.injEq, true_and, List.append_cancel_left_eq] at h
    obtain ⟨rfl, rest⟩ := Form.split_line short short' h
    exact ⟨rfl, rest⟩
  · exact absurd h (Form.note_ne_list (by decide) (form' ▸ legible' all'))
  · exact absurd h.symm (Form.note_ne_list (by decide) (form ▸ legible all))
  · obtain ⟨same, rest⟩ := Form.read_list (form ▸ legible all) (form' ▸ legible' all') h
    exact ⟨same, List.tail_eq_of_cons_eq rest⟩

end Stmt

namespace Program

def Sourced (p : Program) : Prop :=
  Stmt.SourcedAll p.statements

def quotes (p : Program) : List String :=
  p.statements.flatMap Stmt.lineQuotes

theorem outline_of_render {p q : Program} (sourced : p.Sourced) (sourced' : q.Sourced)
    (late : Late p.quotes) (late' : Late q.quotes) (h : p.render = q.render) :
    p.outline = q.outline := by
  obtain ⟨ss⟩ := p
  obtain ⟨ss'⟩ := q
  rw [← String.toList_inj, toList_render, toList_render] at h
  suffices Stmt.outlineAll ss = Stmt.outlineAll ss' by rw [outline, outline, this]
  induction ss generalizing ss' with
  | nil =>
    cases ss' with
    | nil => rfl
    | cons => simp at h
  | cons s ss ih =>
    cases ss' with
    | nil => simp at h
    | cons s' ss' =>
      obtain ⟨first, others⟩ := late_append.1 late
      obtain ⟨first', others'⟩ := late_append.1 late'
      obtain ⟨form, rest⟩ := Stmt.read_line sourced.1 sourced'.1 first first' (by simpa using h)
      rw [Stmt.outlineAll, Stmt.outlineAll, s.outline_of_form s' sourced.1 sourced'.1 form,
        ih sourced.2 others ss' sourced'.2 others' rest]

end Program

end Betik
