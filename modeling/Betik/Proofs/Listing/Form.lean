/-
Reading parenthesised text.

A form is a word, a text in quotation marks, or a list with a word in front.  Nothing in
the texts is escaped, so a text may hold no quotation mark; but the only text of a note
ends with its list, and may hold quotation marks that do not look like the end of both,
`EndsEarly`.  Under these conditions a form is determined by a text that begins with it,
`Form.read`.
-/
import Betik.Proofs.Token.Pattern

namespace Betik

/-- What stands behind a word or a list inside of a list. -/
def isClosing (c : Char) : Bool :=
  c = ' ' || c = ')'

/-- The text of a note that has its end inside. -/
def EndsEarly (s : String) : Prop :=
  ['"', ')', ' '] <:+: s.toList ∨ ['"', ')', ')'] <:+: s.toList

instance (s : String) : Decidable (EndsEarly s) :=
  inferInstanceAs (Decidable (_ ∨ _))

inductive Form
  | word (w : String)
  | quoted (s : String)
  /-- A list of one text. -/
  | note (head : String) (s : String)
  | list (head : String) (items : List Form)

namespace Form

mutual

def chars : Form → List Char
  | word w => w.toList
  | quoted s => '"' :: (s.toList ++ ['"'])
  | note head s => '(' :: (head.toList ++ ' ' :: '"' :: (s.toList ++ ['"', ')']))
  | list head items => '(' :: (head.toList ++ (charsAll items ++ [')']))

def charsAll : List Form → List Char
  | [] => []
  | f :: fs => ' ' :: (f.chars ++ charsAll fs)

end

def noteHeads : List String :=
  ["input", "comment"]

/-- A word that a space or a parenthesis ends. -/
def Plain (w : String) : Prop :=
  ∀ c ∈ w.toList, ¬isClosing c

/-- A word that can stand by itself, since its first character is not that of another form. -/
def Alone (w : String) : Prop :=
  ∃ c rest, w.toList = c :: rest ∧ c ≠ '(' ∧ c ≠ '"'

mutual

def Legible : Form → Prop
  | word w => Plain w ∧ Alone w
  | quoted s => '"' ∉ s.toList
  | note head s => head ∈ noteHeads ∧ ¬EndsEarly s
  | list head items => Plain head ∧ (head ∈ noteHeads → ∀ s rest, items ≠ quoted s :: rest) ∧
      LegibleAll items

def LegibleAll : List Form → Prop
  | [] => True
  | f :: fs => f.Legible ∧ LegibleAll fs

end

/-! ## The pieces of a form -/

variable {r s : List Char}

/-- Two runs of a class in front of one text. -/
theorem split_run {p : Char → Bool} {u v : List Char} (inside : ∀ c ∈ u, p c)
    (inside' : ∀ c ∈ v, p c) (stop : ¬startsWith p r) (stop' : ¬startsWith p s)
    (h : u ++ r = v ++ s) : u = v ∧ r = s := by
  have run := takeWhile_eq_iff.2 ⟨r, rfl, inside, stop⟩
  have run' := takeWhile_eq_iff.2 ⟨s, h, inside', stop'⟩
  obtain rfl := run.symm.trans run'
  exact ⟨rfl, List.append_cancel_left h⟩

def Follows (r : List Char) : Prop :=
  ¬startsWith (fun c => !isClosing c) r

theorem follows_space (r : List Char) : Follows (' ' :: r) := by
  simp [Follows, startsWith, isClosing]

theorem follows_parenthesis (r : List Char) : Follows (')' :: r) := by
  simp [Follows, startsWith, isClosing]

theorem not_follows {c : Char} (h : ¬isClosing c) (r : List Char) : ¬Follows (c :: r) := by
  simp [Follows, startsWith, h]

theorem split_word {u v : String} (plain : Plain u) (plain' : Plain v) (follows : Follows r)
    (follows' : Follows s) (h : u.toList ++ r = v.toList ++ s) : u = v ∧ r = s := by
  have inside {w : String} (plain : Plain w) : ∀ c ∈ w.toList, !isClosing c := fun c mem => by
    simpa using plain c mem
  obtain ⟨same, rest⟩ := split_run (inside plain) (inside plain') follows follows' h
  exact ⟨String.toList_inj.1 same, rest⟩

/-- Two runs of a class in front of one character. -/
theorem split_before {p : Char → Bool} {q : Char} {u v : List Char} (stop : ¬p q)
    (inside : ∀ c ∈ u, p c) (inside' : ∀ c ∈ v, p c) (h : u ++ q :: r = v ++ q :: s) :
    u = v ∧ r = s := by
  obtain ⟨same, rest⟩ := split_run inside inside' (r := q :: r) (s := q :: s) stop stop h
  exact ⟨same, List.tail_eq_of_cons_eq rest⟩

theorem split_until {q : Char} {u v : List Char} (inside : q ∉ u) (inside' : q ∉ v)
    (h : u ++ q :: r = v ++ q :: s) : u = v ∧ r = s := by
  have free {w : List Char} (inside : q ∉ w) : ∀ c ∈ w, c != q := fun c mem =>
    bne_iff_ne.2 fun same => inside (same ▸ mem)
  exact split_before (by simp) (free inside) (free inside') h

theorem split_quoted {u v : String} (inside : '"' ∉ u.toList) (inside' : '"' ∉ v.toList)
    (h : u.toList ++ '"' :: r = v.toList ++ '"' :: s) : u = v ∧ r = s := by
  obtain ⟨same, rest⟩ := split_until inside inside' h
  exact ⟨String.toList_inj.1 same, rest⟩

/-- The end of a note does not come later than where its end stands. -/
theorem nil_of_not_endsEarly {t a : List Char} (late : ¬EndsEarly (String.ofList (t ++ a)))
    (follows : Follows r) (h : '"' :: ')' :: r = a ++ '"' :: ')' :: s) : a = [] := by
  match a with
  | [] => rfl
  | [_] => cases (List.cons.inj (List.cons.inj h).2).1
  | [_, _] =>
    obtain ⟨-, -, rfl⟩ := by simpa using h
    exact absurd follows (not_follows (by decide) _)
  | x :: y :: c :: a =>
    obtain ⟨rfl, rfl, rfl⟩ := by simpa using h
    have closing : isClosing c :=
      Decidable.byContradiction fun other => not_follows other _ follows
    simp only [isClosing, Bool.or_eq_true, decide_eq_true_eq] at closing
    obtain rfl | rfl := closing
    · exact absurd (.inl ⟨t, a, by simp⟩) late
    · exact absurd (.inr ⟨t, a, by simp⟩) late

theorem split_note {u v : String} (late : ¬EndsEarly u) (late' : ¬EndsEarly v)
    (follows : Follows r) (follows' : Follows s)
    (h : u.toList ++ '"' :: ')' :: r = v.toList ++ '"' :: ')' :: s) : u = v ∧ r = s := by
  have same : u.toList = v.toList := by
    rcases List.append_eq_append_iff.1 h with ⟨a, longer, rest⟩ | ⟨a, longer, rest⟩
    · have none := nil_of_not_endsEarly (t := u.toList) (a := a) (by simpa [← longer]) follows rest
      rw [longer, none, List.append_nil]
    · have none := nil_of_not_endsEarly (t := v.toList) (a := a) (by simpa [← longer]) follows' rest
      rw [longer, none, List.append_nil]
  rw [same] at h
  have rest := List.append_cancel_left h
  exact ⟨String.toList_inj.1 same, List.tail_eq_of_cons_eq (List.tail_eq_of_cons_eq rest)⟩

/-- A note that has a line for itself may hold any text. -/
theorem split_line {u v : String} (short : '\n' ∉ u.toList) (short' : '\n' ∉ v.toList)
    (h : u.toList ++ '"' :: ')' :: '\n' :: r = v.toList ++ '"' :: ')' :: '\n' :: s) :
    u = v ∧ r = s := by
  have inside {w : String} (short : '\n' ∉ w.toList) : '\n' ∉ w.toList ++ ['"', ')'] := by
    simp [short]
  obtain ⟨same, rest⟩ := split_until (inside short) (inside short') (by simpa using h)
  exact ⟨String.toList_inj.1 (List.append_cancel_right same), rest⟩

/-! ## Forms -/

/-- The first character of the form unless that belongs to a word. -/
def mark? : Form → Option Char
  | word _ => none
  | quoted _ => some '"'
  | note .. | list .. => some '('

theorem mark?_eq {x : Form} (legible : x.Legible) :
    ∃ c rest, x.chars = c :: rest ∧ x.mark? = if c = '(' ∨ c = '"' then some c else none := by
  cases x with
  | word w =>
    obtain ⟨-, c, rest, first, noList, noText⟩ := legible
    exact ⟨c, rest, first, by simp [mark?, noList, noText]⟩
  | quoted | note | list => exact ⟨_, _, rfl, rfl⟩

theorem mark?_eq_mark? {x y : Form} (legible : x.Legible) (legible' : y.Legible)
    (h : x.chars ++ r = y.chars ++ s) : x.mark? = y.mark? := by
  obtain ⟨c, rest, first, mark⟩ := mark?_eq legible
  obtain ⟨c', rest', first', mark'⟩ := mark?_eq legible'
  rw [first, first'] at h
  rw [mark, mark', (List.cons.inj h).1]

theorem follows_items (items : List Form) (r : List Char) :
    Follows (charsAll items ++ ')' :: r) := by
  cases items with
  | nil => exact follows_parenthesis _
  | cons => exact follows_space _

theorem plain_of_mem_noteHeads {head : String} (mem : head ∈ noteHeads) : Plain head := by
  have all : ∀ w ∈ noteHeads, ∀ c ∈ w.toList, ¬isClosing c := by simp [noteHeads, isClosing]
  exact all head mem

/-- A list is no note, because it does not begin with a text where a note would. -/
theorem note_ne_list {head head' u : String} {items : List Form} (mem : head ∈ noteHeads)
    (legible : (list head' items).Legible) :
    (note head u).chars ++ r ≠ (list head' items).chars ++ s := by
  intro h
  obtain ⟨plain, noText, all⟩ := legible
  simp only [chars, List.cons_append, List.append_assoc, List.nil_append, List.cons.injEq,
    true_and] at h
  obtain ⟨rfl, rest⟩ := split_word (plain_of_mem_noteHeads mem) plain (follows_space _)
    (follows_items _ _) h
  cases items with
  | nil => exact absurd (List.cons.inj rest).1 (by decide)
  | cons y ys =>
    simp only [charsAll, List.cons_append, List.append_assoc, List.cons.injEq, true_and] at rest
    obtain ⟨c, tail, first, mark⟩ := mark?_eq all.1
    rw [first] at rest
    obtain rfl := (List.cons.inj rest).1
    cases y with
    | quoted v => exact noText mem v ys rfl
    | word | note | list => cases mark

theorem split_list {head head' : String} {items items' : List Form}
    (legible : (list head items).Legible) (legible' : (list head' items').Legible)
    (h : (list head items).chars ++ r = (list head' items').chars ++ s) :
    head = head' ∧ charsAll items ++ ')' :: r = charsAll items' ++ ')' :: s := by
  simp only [chars, List.cons_append, List.append_assoc, List.nil_append, List.cons.injEq,
    true_and] at h
  exact split_word legible.1 legible'.1 (follows_items _ _) (follows_items _ _) h

mutual

/-- A text in a list begins with one legible form at most. -/
theorem read : ∀ (x y : Form) (r s : List Char), x.Legible → y.Legible → Follows r → Follows s →
    x.chars ++ r = y.chars ++ s → x = y ∧ r = s
  | word w, y, r, s, legible, legible', follows, follows', h => by
    have mark := mark?_eq_mark? legible legible' h
    cases y with
    | word w' =>
      obtain ⟨rfl, same⟩ := split_word legible.1 legible'.1 follows follows' h
      exact ⟨rfl, same⟩
    | quoted | note | list => cases mark
  | quoted u, y, r, s, legible, legible', _, _, h => by
    have mark := mark?_eq_mark? legible legible' h
    cases y with
    | quoted v =>
      simp only [chars, List.cons_append, List.append_assoc, List.nil_append] at h
      obtain ⟨rfl, same⟩ := split_quoted legible legible' (List.tail_eq_of_cons_eq h)
      exact ⟨rfl, same⟩
    | word | note | list => cases mark
  | note head u, y, r, s, legible, legible', follows, follows', h => by
    have mark := mark?_eq_mark? legible legible' h
    cases y with
    | note head' v =>
      simp only [chars, List.cons_append, List.append_assoc, List.nil_append, List.cons.injEq,
        true_and] at h
      obtain ⟨rfl, rest⟩ := split_word (plain_of_mem_noteHeads legible.1)
        (plain_of_mem_noteHeads legible'.1) (follows_space _) (follows_space _) h
      simp only [List.cons.injEq, true_and] at rest
      obtain ⟨rfl, same⟩ := split_note legible.2 legible'.2 follows follows' rest
      exact ⟨rfl, same⟩
    | list => exact absurd h (note_ne_list legible.1 legible')
    | word | quoted => cases mark
  | list head items, y, r, s, legible, legible', _, _, h => by
    have mark := mark?_eq_mark? legible legible' h
    cases y with
    | list head' items' =>
      obtain ⟨rfl, rest⟩ := split_list legible legible' h
      obtain ⟨rfl, same⟩ := readAll items items' r s legible.2.2 legible'.2.2 rest
      exact ⟨rfl, same⟩
    | note => exact absurd h.symm (note_ne_list legible'.1 legible)
    | word | quoted => cases mark

theorem readAll : ∀ (xs ys : List Form) (r s : List Char), LegibleAll xs → LegibleAll ys →
    charsAll xs ++ ')' :: r = charsAll ys ++ ')' :: s → xs = ys ∧ r = s
  | [], ys, r, s, _, _, h => by
    cases ys with
    | nil => exact ⟨rfl, List.tail_eq_of_cons_eq h⟩
    | cons => exact absurd (List.cons.inj h).1 (by decide)
  | x :: xs, ys, r, s, legible, legible', h => by
    cases ys with
    | nil => exact absurd (List.cons.inj h).1 (by decide)
    | cons y ys =>
      simp only [charsAll, List.cons_append, List.append_assoc, List.cons.injEq, true_and] at h
      obtain ⟨rfl, rest⟩ := read x y _ _ legible.1 legible'.1 (follows_items xs r)
        (follows_items ys s) h
      obtain ⟨rfl, same⟩ := readAll xs ys r s legible.2 legible'.2 rest
      exact ⟨rfl, same⟩

end

/-- A list shows its end, whatever follows. -/
theorem read_list {head head' : String} {items items' : List Form}
    (legible : (list head items).Legible) (legible' : (list head' items').Legible)
    (h : (list head items).chars ++ r = (list head' items').chars ++ s) :
    list head items = list head' items' ∧ r = s := by
  obtain ⟨rfl, rest⟩ := split_list legible legible' h
  obtain ⟨rfl, same⟩ := readAll items items' r s legible.2.2 legible'.2.2 rest
  exact ⟨rfl, same⟩

end Form
end Betik
