import Mathlib.Data.List.Chain
import Spreadsheet.Proofs.Formula.Soundness

/-! Tokens side by side. After the token that it has taken, a reader asks only for such as may follow it,
so that the tokens of a formula follow each other accordingly. -/
namespace Spreadsheet.Formula

/-- The classes of the tokens that may follow one of a class in a formula. -/
def Terminal.followers : Terminal → List Terminal
  | .name => [.mark .open]
  | .mark .close | .mark .percent => Focus.operandFollowers
  | .mark _ => Focus.operandStarts ++ [.mark .close]
  | _ => Focus.operandFollowers ++ [.mark .colon]

/-- One token may stand in front of another. -/
def Neighbours (a b : Token) : Prop := b.terminal ∈ a.terminal.followers

namespace Reader

variable {r next : Reader} {frames : List Frame} {token : Token} {ts : List Token}

theorem candidates_of_takeOperand (h : token.terminal ∈ Focus.operandStarts) :
    ∀ t ∈ (takeOperand frames token).focus.candidates, t ∈ token.terminal.followers := by
  rcases Reached.operandStarts_cases _ h with hreference | hliteral | hsign | hname | hopen
  · rw [takeOperand_reference hreference]
    have hfollowers : ∀ t ∈ Terminal.references, ∀ u ∈ Focus.operandFollowers ++ [.mark .colon],
        u ∈ t.followers := by decide
    exact hfollowers _ hreference
  · rw [takeOperand_literal hliteral]
    have hfollowers : ∀ t ∈ Terminal.literals, ∀ u ∈ Focus.operandFollowers, u ∈ t.followers := by
      decide
    exact hfollowers _ hliteral
  · obtain ⟨op, hsign⟩ := Option.isSome_iff_exists.mp hsign
    rw [takeOperand_sign hsign]
    unfold Terminal.sign? at hsign
    split at hsign <;> cases hsign <;> rename_i hterminal <;> rw [hterminal] <;>
      exact fun t ht => List.mem_append_left _ ht
  · rw [takeOperand_name hname, hname]
    exact fun t ht => ht
  · rw [takeOperand_open hopen, hopen]
    exact fun t ht => List.mem_append_left _ ht

theorem candidates_of_takeMark {draft : Draft} {mark : Mark}
    (h : takeMark frames draft token mark = .ok next) :
    ∀ t ∈ next.focus.candidates, t ∈ (Terminal.mark mark).followers := by
  unfold takeMark at h
  split at h
  · cases h
    exact fun t ht => ht
  · cases h
    exact fun t ht => List.mem_append_left _ ht
  · split at h <;> cases h <;> exact fun t ht => ht
  · split at h <;> cases h
    exact fun t ht => List.mem_append_left _ ht
  · rename_i hpercent hcaret hclose hcomma
    split at h <;> cases h
    cases mark <;> first | exact fun t ht => List.mem_append_left _ ht | contradiction

/-- What a reader asks for may follow the token that it has just taken. -/
theorem candidates_of_accept? (h : r.accept? token = some next) :
    ∀ t ∈ next.focus.candidates, t ∈ token.terminal.followers := by
  obtain ⟨hmem, htake⟩ := accept?_eq_some.mp h
  obtain ⟨frames, focus⟩ := r
  cases focus with
  | operand afterCall =>
    by_cases hclose : token.terminal = .mark .close
    · cases afterCall with
      | false =>
        rw [hclose] at hmem
        exact absurd hmem (by decide : Terminal.mark .close ∉ Focus.operandStarts)
      | true =>
        obtain ⟨terminal, cs, column⟩ := token
        cases hclose
        unfold take at htake
        dsimp only at htake
        split at htake <;> cases htake
        exact fun t ht => ht
    · rw [take_operand hclose] at htake
      cases htake
      refine candidates_of_takeOperand ?_
      cases afterCall with
      | false => exact hmem
      | true => exact (List.mem_append.mp hmem).resolve_right fun h => hclose (List.mem_singleton.mp h)
  | name name =>
    cases htake
    rw [List.mem_singleton.mp hmem]
    exact fun t ht => ht
  | reference first =>
    obtain ⟨mark, hmark⟩ := Reached.exists_mark hmem
    obtain ⟨terminal, cs, column⟩ := token
    cases hmark
    by_cases hcolon : mark = .colon
    · cases hcolon
      cases htake
      have hfollowers : ∀ t ∈ [Terminal.rowColumn, .cell], t ∈ (Terminal.mark .colon).followers := by
        decide
      exact hfollowers
    · rw [take_mark rfl hcolon] at htake
      exact candidates_of_takeMark htake
  | corner first =>
    cases htake
    have hfollowers : ∀ t ∈ [Terminal.rowColumn, .cell],
        t.followers = Focus.operandFollowers ++ [.mark .colon] := by decide
    rw [hfollowers _ hmem]
    exact fun t ht => ht
  | range draft =>
    obtain ⟨mark, hmark⟩ := Reached.exists_mark hmem
    obtain ⟨terminal, cs, column⟩ := token
    cases hmark
    exact candidates_of_takeMark htake
  | complete draft =>
    obtain ⟨mark, hmark⟩ := Reached.exists_mark (List.mem_append_left _ hmem)
    obtain ⟨terminal, cs, column⟩ := token
    cases hmark
    exact candidates_of_takeMark htake

theorem isChain_of_run (h : r.run ts = some next) : ts.IsChain Neighbours := by
  induction ts generalizing r with
  | nil => exact .nil
  | cons a ts ih =>
    obtain ⟨r', haccept, hrun⟩ := run_cons_eq_some.mp h
    refine List.isChain_cons.mpr ⟨fun b hb => ?_, ih hrun⟩
    obtain ⟨ts, rfl⟩ := List.head?_eq_some_iff.mp hb
    obtain ⟨r'', haccept', -⟩ := run_cons_eq_some.mp hrun
    exact candidates_of_accept? haccept _ (accept?_eq_some.mp haccept').1

end Reader

namespace Derivation

theorem isChain_tokens (d : Derivation .start) : d.tokens.IsChain Neighbours := by
  obtain ⟨equal, ts, r, htokens, hequal, hrun, -⟩ := d.reads
  rw [htokens]
  refine List.isChain_cons.mpr ⟨fun b hb => ?_, Reader.isChain_of_run hrun⟩
  obtain ⟨ts, rfl⟩ := List.head?_eq_some_iff.mp hb
  obtain ⟨r', haccept, -⟩ := Reader.run_cons_eq_some.mp hrun
  unfold Neighbours
  rw [hequal]
  exact List.mem_append_left _ (Reader.accept?_eq_some.mp haccept).1

/-- No formula ends with a name. -/
theorem last_ne_name (d : Derivation .start) {ts : List Token} {last : Token}
    (h : d.tokens = ts ++ [last]) : last.terminal ≠ .name := by
  intro hname
  obtain ⟨equal, tail, r, htokens, hequal, hrun, draft, hdraft, -⟩ := d.reads
  rw [htokens] at h
  cases ts with
  | nil =>
    obtain ⟨rfl, -⟩ := List.cons.inj h
    rw [hequal] at hname
    contradiction
  | cons first ts =>
    rw [List.cons_append] at h
    obtain ⟨rfl, rfl⟩ := List.cons.inj h
    rw [Reader.run_append, Option.bind_eq_some_iff] at hrun
    obtain ⟨r', -, hlast⟩ := hrun
    obtain ⟨r'', haccept, hnil⟩ := Reader.run_cons_eq_some.mp hlast
    cases hnil
    have hpercent := Reader.mem_candidates_of_draft? hdraft (by decide : .mark .percent ∈ _)
    have hfollows := Reader.candidates_of_accept? haccept _ hpercent
    rw [hname] at hfollows
    exact absurd hfollows (by decide)

end Derivation

end Spreadsheet.Formula
