/-
The rule for alternatives chooses between trees.  It never leaves tokens without one.

A derivation that does not heed the rule has conditions in it that are followed by an
alternative of their own.  The first such condition takes it, and then whatever takes
an alternative in the branch does so in the whole condition.
-/
import Betik.Proofs.Syntax.Exactness

namespace Betik
namespace Stmt

theorem Derives.cond_head {look : Lookahead} {ts : List Token} {s : Stmt}
    (d : Derives look ts (.cond s)) : ∃ t tail, ts = t :: tail ∧ t.kind = .keyword .cond := by
  cases d with
  | withoutAlternative kind | withAlternative kind => exact ⟨_, _, rfl, kind⟩

def Phrase.Resolved : Phrase → List Token → Prop
  | one _, ts => ∃ s, Derives .direct ts (.one s)
  | cond _, ts => ∃ s, Derives .direct ts (.cond s)
  | branch _, ts => ∃ s, Derives .direct ts (.branch s)
  | block _, ts => ∃ s, Derives .direct ts (.block s)
  | body _, ts => ∃ ss, Derives .direct ts (.body ss)
  | many _, ts => ∃ ss, Derives .direct ts (.many ss)

/-- The tokens and an alternative behind them spell one statement, which takes another
alternative where the branch does. -/
def Phrase.Extended (us : List Token) (no : Stmt) : Phrase → List Token → Prop
  | one s, ts => s.takesAlternative → ∃ s', Derives .direct (ts ++ us) (.one s') ∧
    s'.takesAlternative = no.takesAlternative
  | cond s, ts => s.takesAlternative → ∃ s', Derives .direct (ts ++ us) (.cond s') ∧
    s'.takesAlternative = no.takesAlternative
  | branch s, ts => s.takesAlternative → ∃ s', Derives .direct (ts ++ us) (.branch s') ∧
    s'.takesAlternative = no.takesAlternative
  | _, _ => True

theorem Derives.extend {ts : List Token} {phrase : Phrase} (d : Derives .direct ts phrase)
    {t : Token} {us : List Token} {no : Stmt} (word : t.kind = .keyword .otherwise)
    (b : Derives .direct us (.branch no)) : phrase.Extended (t :: us) no ts := by
  induction d with
  | declare | assign | call | callEnded | print | ret | loop | function | comment =>
    exact fun takes => by cases takes
  | block | body | nil | empty | cons => trivial
  | condition _ ih =>
    intro takes
    obtain ⟨s', d', same⟩ := ih takes
    exact ⟨s', .condition d', same⟩
  | dangling kind _ ih =>
    intro takes
    obtain ⟨s', d', same⟩ := ih takes
    exact ⟨s', .dangling kind d', same⟩
  | branchCond _ ih =>
    intro takes
    obtain ⟨s', d', same⟩ := ih takes
    exact ⟨s', .branchCond d', same⟩
  | branchBlock block =>
    cases block
    exact fun takes => by cases takes
  | @withoutAlternative t _ _ e yes kind condition block =>
    intro _
    refine ⟨.cond t.line e yes (some no), ?_, rfl⟩
    simpa using Derives.withAlternative kind condition block word b
  | @withAlternative t _ _ _ _ e yes _ kind condition block here _ _ ih =>
    intro takes
    obtain ⟨no', d', same⟩ := ih takes
    refine ⟨.cond t.line e yes (some no'), ?_, same⟩
    simpa using Derives.withAlternative kind condition block here d'

/-- A sequence that begins with an alternative begins with one that has no condition. -/
theorem Derives.dangling_first {ts : List Token} {ss : List Stmt}
    (d : Derives .direct ts (.many ss)) (found : Lookahead.direct.findsAlternative ts) :
    ∃ t us vs no ss', ts = t :: (us ++ vs) ∧ t.kind = .keyword .otherwise ∧
      Derives .direct us (.branch no) ∧ Derives .direct vs (.many ss') ∧
      Lookahead.direct.Apart no vs := by
  cases d with
  | nil => cases found
  | empty kind => simp [Lookahead.findsAlternative, nextIs, kind] at found
  | cons first others apart =>
    cases first with
    | dangling kind branch => exact ⟨_, _, _, _, _, rfl, kind, branch, others, apart⟩
    | condition cond =>
      obtain ⟨t, tail, rfl, kind⟩ := cond.cond_head
      simp [Lookahead.findsAlternative, nextIs, kind] at found
    | declare kind | assign kind | call kind | callEnded kind | print kind | loop kind
    | function kind | ret kind | comment kind =>
      simp [Lookahead.findsAlternative, nextIs, kind] at found

theorem Derives.resolve {ts : List Token} {phrase : Phrase} (d : Derives .never ts phrase) :
    phrase.Resolved ts := by
  induction d with
  | declare kind named colon typeWord equals value ends =>
    exact ⟨_, .declare kind named colon typeWord equals value ends⟩
  | assign kind sign value ends => exact ⟨_, .assign kind sign value ends⟩
  | call kind arguments => exact ⟨_, .call kind arguments⟩
  | callEnded kind arguments ends => exact ⟨_, .callEnded kind arguments ends⟩
  | print kind value ends => exact ⟨_, .print kind value ends⟩
  | ret kind value ends => exact ⟨_, .ret kind value ends⟩
  | comment kind => exact ⟨_, .comment kind⟩
  | loop kind condition _ ih => exact ih.elim fun _ d => ⟨_, .loop kind condition d⟩
  | condition _ ih => exact ih.imp fun _ d => .condition d
  | dangling kind _ ih => exact ih.imp fun _ d => .dangling kind d
  | function kind named params _ ih => exact ih.elim fun _ d => ⟨_, .function kind named params d⟩
  | withoutAlternative kind condition _ ih =>
    exact ih.elim fun _ d => ⟨_, .withoutAlternative kind condition d⟩
  | withAlternative kind condition _ word _ ihb ihn =>
    obtain ⟨yes, b⟩ := ihb
    obtain ⟨no, n⟩ := ihn
    exact ⟨_, .withAlternative kind condition b word n⟩
  | branchCond _ ih => exact ih.imp fun _ d => .branchCond d
  | branchBlock _ ih => exact ih.imp fun _ d => .branchBlock d
  | block _ ih => exact ih.elim fun _ d => ⟨_, .block d⟩
  | body left _ right ih => exact ih.imp fun _ d => .body left d right
  | nil => exact ⟨_, .nil⟩
  | empty kind _ ih => exact ih.imp fun _ d => .empty kind d
  | @cons us vs s ss _ _ _ ihf ihr =>
    obtain ⟨s, first⟩ := ihf
    obtain ⟨ss, others⟩ := ihr
    by_cases apart : Lookahead.direct.Apart s vs
    · exact ⟨_, .cons first others apart⟩
    · simp only [Lookahead.Apart, Classical.not_imp, Classical.not_not] at apart
      obtain ⟨takes, found⟩ := apart
      obtain ⟨t, us', vs', no, ss', rfl, word, branch, others', apart'⟩ :=
        others.dangling_first found
      obtain ⟨s', extended, same⟩ := first.extend word branch takes
      have apart'' : Lookahead.direct.Apart s' vs' := fun takes => apart' (same ▸ takes)
      refine ⟨s' :: ss', ?_⟩
      simpa using Derives.cons extended others' apart''

/-- The rule only forbids. -/
theorem Derives.ambiguous {look : Lookahead} {ts : List Token} {phrase : Phrase}
    (d : Derives look ts phrase) : Derives .never ts phrase := by
  induction d with
  | declare kind named colon typeWord equals value ends =>
    exact .declare kind named colon typeWord equals value ends
  | assign kind sign value ends => exact .assign kind sign value ends
  | call kind arguments => exact .call kind arguments
  | callEnded kind arguments ends => exact .callEnded kind arguments ends
  | print kind value ends => exact .print kind value ends
  | ret kind value ends => exact .ret kind value ends
  | comment kind => exact .comment kind
  | loop kind condition _ ih => exact .loop kind condition ih
  | condition _ ih => exact .condition ih
  | dangling kind _ ih => exact .dangling kind ih
  | function kind named params _ ih => exact .function kind named params ih
  | withoutAlternative kind condition _ ih => exact .withoutAlternative kind condition ih
  | withAlternative kind condition _ word _ ihb ihn =>
    exact .withAlternative kind condition ihb word ihn
  | branchCond _ ih => exact .branchCond ih
  | branchBlock _ ih => exact .branchBlock ih
  | block _ ih => exact .block ih
  | body left _ right ih => exact .body left ih right
  | nil => exact .nil
  | empty kind _ ih => exact .empty kind ih
  | cons _ _ _ ihf ihr => exact .cons ihf ihr fun _ found => by cases found

end Stmt
end Betik
