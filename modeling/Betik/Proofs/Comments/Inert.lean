/-
Where comments are inert.

A comment keeps its place among the statements, and there it stands between a condition
and an alternative as anything else would.  Such an alternative is a statement of its
own, and the condition gets it back when the comment is taken out.  This is the only
way in which comments matter.
-/
import Betik.Proofs.Comments.Behaviour
import Betik.Proofs.Comments.Syntax

namespace Betik

/-- The tokens of a program spell one without their comments too, and it is the same
without its comments exactly if no alternative stands behind a condition and comments.
A program without its comments does what it did with them. -/
theorem comments_inert_iff {ts : List Token} {p : Program} (accepted : parse ts = .ok p) :
    (∃ q, parse (withoutComments ts) = .ok q) ∧
    (parse (withoutComments ts) = .ok p.withoutComments ↔
      p.Derives .pastComments (beforeEnd ts)) ∧
    p.SameAs p.withoutComments :=
  ⟨parse_withoutComments_accepts accepted, parse_withoutComments accepted,
    p.sameAs_withoutComments⟩

/-- A comment in front of an alternative is in no one's way if a block's brace stands
between them. -/
theorem comment_in_block_inert :
    let ts : List Token := [⟨.keyword .cond, "ise", 1⟩, ⟨.mark .leftParen, "(", 1⟩,
      ⟨.keyword (.truth true), "doğru", 1⟩, ⟨.mark .rightParen, ")", 1⟩,
      ⟨.mark .leftBrace, "\x7b", 1⟩, ⟨.comment, "@ not", 1⟩, ⟨.mark .rightBrace, "\x7d", 2⟩,
      ⟨.keyword .otherwise, "değilse", 2⟩, ⟨.mark .leftBrace, "\x7b", 2⟩,
      ⟨.mark .rightBrace, "\x7d", 2⟩, ⟨.endOfFile, "", 2⟩]
    let p : Program := ⟨[.cond 1 (.literal 1 (.boolean true)) (.block 1 [.comment 1 "not"])
      (some (.block 2 []))]⟩
    parse ts = .ok p ∧ p.Derives .pastComments (beforeEnd ts) ∧ p.SameAs p.withoutComments := by
  intro ts p
  have accepted : parse ts = .ok p := by cbv
  have stripped : parse (withoutComments ts) = .ok p.withoutComments := by cbv
  obtain ⟨_, inert, same⟩ := comments_inert_iff accepted
  exact ⟨accepted, inert.1 stripped, same⟩

/-- The alternative behind a comment is a statement of its own, and part of the
condition when the comment is gone. -/
theorem comment_not_inert :
    ∃ (ts : List Token) (eof : Token) (p : Program), eof.kind = .endOfFile ∧
      parse (ts ++ [eof]) = .ok p ∧
      parse (withoutComments (ts ++ [eof])) ≠ .ok p.withoutComments := by
  refine ⟨[⟨.keyword .cond, "ise", 1⟩, ⟨.mark .leftParen, "(", 1⟩,
    ⟨.keyword (.truth true), "doğru", 1⟩, ⟨.mark .rightParen, ")", 1⟩,
    ⟨.mark .leftBrace, "\x7b", 1⟩, ⟨.mark .rightBrace, "\x7d", 1⟩, ⟨.comment, "@ not", 1⟩,
    ⟨.keyword .otherwise, "değilse", 2⟩, ⟨.mark .leftBrace, "\x7b", 2⟩,
    ⟨.mark .rightBrace, "\x7d", 2⟩], ⟨.endOfFile, "", 2⟩,
    ⟨[.cond 1 (.literal 1 (.boolean true)) (.block 1 []) none, .comment 1 "not", .block 2 []]⟩,
    rfl, ?_, ?_⟩
  · cbv
  · cbv
    intro h
    cases h

end Betik
