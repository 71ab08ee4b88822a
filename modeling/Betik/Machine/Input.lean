/-
The input of a run.  Prompts take it line by line, and nothing else reads it.
-/

namespace Betik

structure Input where
  unread : List UInt8
deriving Repr

inductive Input.Line
  | closed
  | malformed
  | text (s : String)
deriving DecidableEq, Repr

namespace Input

def lineFeed : UInt8 := 10

/-- The bytes up to a line feed, which belongs to them, and those after it. -/
def splitLine : List UInt8 → List UInt8 × List UInt8
  | [] => ([], [])
  | b :: bs =>
    if b = lineFeed then ([b], bs)
    else
      let (line, rest) := splitLine bs
      (b :: line, rest)

def trimEnd (line : String) : String :=
  String.ofList ((line.toList.reverse.dropWhile fun c => c = '\n' ∨ c = '\r').reverse)

/-- The next line.  One that is no text is used up all the same. -/
def readLine (input : Input) : Line × Input :=
  match splitLine input.unread with
  | ([], _) => (.closed, input)
  | (line, rest) =>
    match String.fromUTF8? ⟨line.toArray⟩ with
    | some s => (.text (trimEnd s), ⟨rest⟩)
    | none => (.malformed, ⟨rest⟩)

theorem splitLine_append (bytes : List UInt8) :
    (splitLine bytes).1 ++ (splitLine bytes).2 = bytes := by
  induction bytes with
  | nil => rfl
  | cons b bs ih =>
    by_cases h : b = lineFeed
    · simp [splitLine, h]
    · simpa [splitLine, h] using ih

theorem splitLine_ne_nil {bytes : List UInt8} (more : bytes ≠ []) : (splitLine bytes).1 ≠ [] := by
  cases bytes with
  | nil => contradiction
  | cons b bs =>
    simp only [splitLine]
    split <;> exact List.cons_ne_nil _ _

theorem readLine_of_ne_nil {bytes : List UInt8} (more : bytes ≠ []) :
    readLine ⟨bytes⟩ =
      (match String.fromUTF8? ⟨(splitLine bytes).1.toArray⟩ with
        | some s => .text (trimEnd s)
        | none => .malformed,
      ⟨(splitLine bytes).2⟩) := by
  have line := splitLine_ne_nil more
  cases split : splitLine bytes with
  | mk first rest =>
    rw [split] at line
    cases first with
    | nil => contradiction
    | cons b bs =>
      simp only [readLine, split]
      cases String.fromUTF8? ⟨(b :: bs).toArray⟩ <;> rfl

/-- A line is read by splitting it off, also when there is none. -/
theorem readLine_rest (input : Input) : input.readLine.2 = ⟨(splitLine input.unread).2⟩ := by
  obtain ⟨bytes⟩ := input
  by_cases more : bytes = []
  · subst more
    rfl
  · rw [readLine_of_ne_nil more]

end Input
end Betik
