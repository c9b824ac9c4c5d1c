import Spreadsheet.Function.Apply
import Spreadsheet.Proofs.Except
import Spreadsheet.Proofs.Number.Bounded

/-! What functions make of their operands, and how they end without a result. Which numbers may be met and
which failures may come of them is left open: whoever asks something of both, such as that no number
lacks a text, or that some fault has a source, has it of all functions. -/
namespace Spreadsheet

/-! ## Values -/

namespace Number

/-- Whether floats have texts of so many significant digits. -/
def Precise (precision : Int) : Prop := 0 ≤ precision ∧ precision ≤ maxPrecision

/-- A number with a text: a whole number that is not too long, or any float. -/
def Legible : Number → Prop
  | .int i => isWritable i
  | .float _ => True

theorem Bounded.legible {n : Number} (h : n.Bounded) : n.Legible := by
  cases n with
  | int i => exact h
  | float x => trivial

theorem Legible.exists_display {precision : Int} (hprecision : Precise precision) {n : Number}
    (hn : n.Legible) : ∃ text, n.display precision = .ok text := by
  cases n with
  | int i =>
    unfold display
    dsimp only
    rw [if_pos (show isWritable i from hn)]
    exact ⟨_, rfl⟩
  | float x =>
    unfold display
    rw [checkPrecision_eq_ok hprecision]
    dsimp only
    split
    · exact ⟨_, rfl⟩
    · exact ⟨_, rfl⟩

theorem carried_of_carry {n m : Number} (h : n.carry = .ok m) : m.Carried := by
  unfold carry at h
  split at h
  · rename_i hcarried
    cases h
    exact carried_of_carried? hcarried
  · contradiction

theorem carried_zero : (Number.int 0).Carried := Nat.pos_of_ne_zero (by decide)

theorem carried_hundred : (Number.int 100).Carried := by
  unfold Carried
  decide

theorem carried_of_toNumber {x : Option Scalar} {n : Number} (h : Scalar.toNumber x = .ok n) :
    n.Carried := by
  unfold Scalar.toNumber at h
  split at h
  · cases h
    exact carried_zero
  · exact carried_of_carry h
  · contradiction

theorem bounded_of_le_maxCount {n : Nat} (h : n ≤ maxCount) : (int n).Bounded :=
  isWritable_of_natAbs_le (n := maxCount) h (by decide +kernel)

end Number

def Scalar.Bounded : Scalar → Prop
  | .number n => n.Bounded
  | _ => True

/-- Whether a number in a cell has a text. -/
def Value.Bounded : Value → Prop
  | .scalar s => s.Bounded
  | .error _ => True

theorem Value.exists_display {precision : Int} (hprecision : Number.Precise precision)
    {v : Option Value} (hv : ∀ w, v = some w → w.Bounded) : ∃ text, display precision v = .ok text := by
  match v with
  | none => exact ⟨_, rfl⟩
  | some (.error kind) => exact ⟨_, rfl⟩
  | some (.text s) => exact ⟨_, rfl⟩
  | some (.bool b) => exact ⟨_, rfl⟩
  | some (.number n) =>
    have hn : n.Bounded := hv _ rfl
    obtain ⟨text, htext⟩ := hn.legible.exists_display hprecision
    unfold display Scalar.toText
    dsimp only
    rw [htext]
    exact ⟨_, rfl⟩

/-! ## Kinds of results -/

/-- What a function or an operator gives. -/
inductive ResultKind where
  | number
  | count
  | text
  | bool
deriving DecidableEq

/-- Whether a result is of a kind. Numbers are such as calculations carry, counts may be greater. -/
inductive ResultKind.Holds : ResultKind → Option Scalar → Prop
  | number {n : Number} : n.Carried → Holds .number (some (.number n))
  | count {n : Nat} : n ≤ Number.maxCount → Holds .count (some (.number (.int n)))
  | text (s : String) : Holds .text (some (.text s))
  | bool (b : Bool) : Holds .bool (some (.bool b))

/-- The kind of the results of a function, none for those that choose which arguments to evaluate. -/
def Function.result? : Function → Option ResultKind
  | .abs | .average | .int | .max | .min | .mod | .power | .product | .round | .sqrt | .sum =>
    some .number
  | .count | .counta | .len => some .count
  | .concat | .lower | .trim | .upper => some .text
  | .and | .isBlank | .not | .or => some .bool
  | .ifThen | .ifError | .isError => none

theorem Function.exists_result {f : Function} (h : f.convention ≠ .lazy) :
    ∃ kind, f.result? = some kind := by
  cases f <;> first | exact ⟨_, rfl⟩ | exact absurd rfl h

/-! ## Regimes -/

/-- Whether a fault comes of what a function makes of its operands, not of the name of one or of an
error that was read. -/
def Fault.isOwn : Fault → Bool
  | .read _ | .unknownFunction _ => false
  | _ => true

/-- Numbers that a computation may meet, and ways in which it may then end without a result. -/
structure Regime (precision : Int) where
  number : Number → Prop
  failure : Failure → Prop
  carried : ∀ {n}, n.Carried → number n
  counted : ∀ {n : Nat}, n ≤ Number.maxCount → number (.int n)
  own : ∀ {f : Fault}, f.isOwn → failure (.fault f)
  overflow : failure .overflow
  unwritten : ∀ {n fault}, number n → n.display precision = .error fault → failure (.precision fault)

namespace Regime

variable {precision : Int}

/-- Anything may be met and may come of it. -/
def free (precision : Int) : Regime precision where
  number _ := True
  failure _ := True
  carried _ := trivial
  counted _ := trivial
  own _ := trivial
  overflow := trivial
  unwritten _ _ := trivial

variable (r : Regime precision)

/-- Whether a content may be met: its number may, if it is one. -/
def Admits : Option Scalar → Prop
  | some (.number n) => r.number n
  | _ => True

/-- Whether a computation ends with a result of a kind or in a way in which it may. -/
def Yields {α : Type} (p : α → Prop) : Except Failure α → Prop
  | .ok a => p a
  | .error failure => r.failure failure

def AdmitsOperand (o : Operand) : Prop := ∀ v ∈ o.values, r.Admits v

/-- Whether the value and the cells of an argument may be met. -/
structure AdmitsArgument (a : Argument) : Prop where
  value : r.Yields r.Admits (a.value ())
  cells : ∀ cells, a.cells? = some cells → r.Yields (fun vs => ∀ v ∈ vs, r.Admits v) (cells ())

theorem admits_of_holds {kind : ResultKind} {x : Option Scalar} (h : kind.Holds x) : r.Admits x := by
  cases h with
  | number hn => exact r.carried hn
  | count hn => exact r.counted hn
  | text s => trivial
  | bool b => trivial

variable {r}

theorem admits_free (x : Option Scalar) : (free precision).Admits x := by
  unfold Admits
  split <;> trivial

namespace Yields

section Combinators

variable {α β σ : Type} {p p' : α → Prop} {q : β → Prop}

theorem free (x : Except Failure α) : (Regime.free precision).Yields (fun _ => True) x := by
  cases x <;> trivial

theorem mono {x : Except Failure α} (h : r.Yields p x) (hp : ∀ a, p a → p' a) : r.Yields p' x := by
  cases x with
  | ok a => exact hp a h
  | error failure => exact h

theorem bind {x : Except Failure α} {f : α → Except Failure β} (hx : r.Yields p x)
    (hf : ∀ a, p a → r.Yields q (f a)) : r.Yields q (x >>= f) := by
  cases x with
  | ok a => exact hf a hx
  | error failure => exact hx

theorem map {x : Except Failure α} {f : α → β} (hx : r.Yields p x) (hf : ∀ a, p a → q (f a)) :
    r.Yields q (x.map f) := by
  cases x with
  | ok a => exact hf a hx
  | error failure => exact hx

theorem ite {c : Prop} [Decidable c] {x y : Except Failure α} (hx : c → r.Yields p x)
    (hy : ¬c → r.Yields p y) : r.Yields p (if c then x else y) := by
  split
  · exact hx ‹_›
  · exact hy ‹_›

theorem fault {f : Fault} (h : f.isOwn) : r.Yields p (.error (.fault f)) := r.own h

theorem overflow : r.Yields p (.error .overflow) := r.overflow

/-- A computation whose faults are its own. -/
theorem lift {x : Except Fault α} (hx : ∀ f, x = .error f → f.isOwn) (h : ∀ a, x = .ok a → p a) :
    r.Yields p (Failure.lift x) := by
  cases x with
  | ok a => exact h a rfl
  | error f => exact r.own (hx f rfl)

theorem foldlM {step : σ → α → Except Failure σ} {s : σ → Prop} {items : List α}
    (hstep : ∀ b, ∀ a ∈ items, s b → r.Yields s (step b a)) {b : σ} (hb : s b) :
    r.Yields s (items.foldlM step b) := by
  induction items generalizing b with
  | nil => exact hb
  | cons a items ih =>
    rw [List.foldlM_cons]
    refine bind (hstep b a List.mem_cons_self hb) fun c hc => ?_
    exact ih (fun c x hx => hstep c x (List.mem_cons_of_mem a hx)) hc

theorem mapM {f : α → Except Failure β} {items : List α} (hf : ∀ a ∈ items, r.Yields q (f a)) :
    r.Yields (fun bs => bs.length = items.length ∧ ∀ b ∈ bs, q b) (items.mapM f) := by
  induction items with
  | nil => exact ⟨rfl, fun b hb => absurd hb List.not_mem_nil⟩
  | cons a items ih =>
    rw [List.mapM_cons]
    refine bind (hf a List.mem_cons_self) fun b hb => ?_
    refine bind (ih fun c hc => hf c (List.mem_cons_of_mem a hc)) fun bs hbs => ?_
    exact ⟨congrArg (· + 1) hbs.1, List.forall_mem_cons.mpr ⟨hb, hbs.2⟩⟩

end Combinators

/-! ## Numbers and texts -/

theorem carryOn (n : Number) : r.Yields Number.Carried n.carryOn := by
  refine lift (fun f hf => ?_) fun m => Number.carried_of_carry
  unfold Number.carry at hf
  split at hf
  · contradiction
  · cases hf
    rfl

theorem toNumber (x : Option Scalar) : r.Yields Number.Carried (Failure.lift (Scalar.toNumber x)) := by
  unfold Scalar.toNumber
  split
  · exact Number.carried_zero
  · exact carryOn _
  · exact fault rfl

theorem toBool (x : Option Scalar) : r.Yields (fun _ => True) (Failure.lift (Scalar.toBool x)) := by
  unfold Scalar.toBool
  split
  · trivial
  · trivial
  · trivial
  · split
    · trivial
    · exact fault rfl

theorem orOverflow (n : Option Number) : r.Yields (fun m => n = some m) (Number.orOverflow n) := by
  cases n with
  | none => exact overflow
  | some m => exact rfl

theorem ofCount (n : Nat) :
    r.Yields (fun m => n ≤ Number.maxCount ∧ m = .int n) (Number.ofCount n) :=
  ite (fun hn => ⟨hn, rfl⟩) fun _ => overflow

theorem power (base exponent : Number) : r.Yields Number.Carried (base.power exponent) := by
  unfold Number.power
  refine ite (fun _ => fault rfl) fun _ => ?_
  split
  · refine ite (fun _ => fault rfl) fun hfinite => ?_
    rw [Bool.not_eq_true', Bool.not_eq_false] at hfinite
    split
    · exact ite (fun hless => hless.2) fun _ => hfinite
    · exact hfinite
  · exact overflow

theorem round {n : Number} (hn : n.Carried) (digits : Int) : r.Yields Number.Carried (n.round digits) := by
  unfold Number.round
  exact ite (fun _ => hn) fun _ => ite (fun _ => carryOn _) fun _ => carryOn _

theorem number {n : Number} (hn : n.Carried) :
    r.Yields ResultKind.number.Holds (Outcome.number n) := ResultKind.Holds.number hn

theorem counted (k : Nat) :
    r.Yields ResultKind.count.Holds (do Outcome.number (← Number.ofCount k)) := by
  refine bind (ofCount k) ?_
  rintro m ⟨hk, rfl⟩
  exact .count hk

theorem written {x : Option Scalar} (hx : r.Admits x) :
    r.Yields (fun _ => True) (Scalar.written precision x) := by
  unfold Scalar.written Scalar.toText
  split
  · trivial
  · rename_i n
    cases htext : n.display precision with
    | ok text => trivial
    | error f => exact r.unwritten hx htext
  · trivial
  · trivial

/-! ## Functions -/

theorem foldNumbers {σ : Type} {step : σ → Number → Except Failure σ} {s : σ → Prop}
    (hstep : ∀ b n, s b → n.Carried → r.Yields s (step b n)) {b : σ} (hb : s b) (operand : Operand) :
    r.Yields s (Operand.foldNumbers step b operand) := by
  unfold Operand.foldNumbers
  split
  · exact bind (toNumber _) fun n hn => hstep b n hb hn
  · refine foldlM (fun b v _ hb => ?_) hb
    split
    · exact bind (carryOn _) fun n hn => hstep b n hb hn
    · exact hb

theorem foldAll {σ : Type} {step : σ → Number → Except Failure σ} {s : σ → Prop}
    (hstep : ∀ b n, s b → n.Carried → r.Yields s (step b n)) {b : σ} (hb : s b)
    (operands : List Operand) : r.Yields s (Operand.foldAll step b operands) :=
  foldlM (fun _ operand _ hb => foldNumbers hstep hb operand) hb

/-- A total of any kind, none if the numbers leave the range on the way. -/
theorem total (operation : Number → Number → Option Number) (start : Number)
    (operands : List Operand) : r.Yields Number.Carried (do
      let total ← Operand.foldAll (fun s n => Number.orOverflow (operation s n)) start operands
      total.carryOn) := by
  refine bind (p := fun _ => True) ?_ fun n _ => carryOn n
  exact foldAll (fun s n _ _ => (orOverflow _).mono fun _ _ => trivial) trivial operands

theorem sum (operands : List Operand) : r.Yields Number.Carried (Operand.sum operands) :=
  total Number.add? (.int 0) operands

theorem product (operands : List Operand) : r.Yields Number.Carried (Operand.product operands) :=
  total Number.mul? (.int 1) operands

theorem extreme (precedes : Number → Number → Bool) (operands : List Operand) :
    r.Yields Number.Carried (Operand.extreme precedes operands) := by
  unfold Operand.extreme
  refine bind (foldAll (s := fun best => ∀ n, best = some n → n.Carried) (fun best n hbest hn => ?_)
    (by simp) operands) fun best hbest => ?_
  · intro m hm
    split at hm
    · cases hm
      exact hn
    · split at hm
      · cases hm
        exact hn
      · cases hm
        exact hbest _ rfl
  · cases best with
    | none => exact Nat.pos_of_ne_zero (by decide)
    | some n => exact hbest n rfl

theorem average (operands : List Operand) : r.Yields Number.Carried (Operand.average operands) := by
  unfold Operand.average
  have hnumbers : r.Yields (fun _ => True)
      (Operand.foldAll (fun (s : List Number) n => .ok (n :: s)) [] operands) := by
    apply foldAll
    · exact fun s n _ _ => trivial
    · trivial
  refine bind hnumbers fun ns _ => ?_
  refine ite (fun _ => fault rfl) fun _ => bind (sum operands) fun total _ => ?_
  exact bind (orOverflow _) fun mean _ => carryOn mean

theorem allTruths (operands : List Operand) :
    r.Yields (fun _ => True) (Operand.allTruths operands) := by
  unfold Operand.allTruths
  refine bind (mapM (q := fun _ => True) fun operand _ => ?_) fun found _ => ?_
  · cases operand with
    | single v => exact bind (toBool v) fun b _ => trivial
    | cells vs => trivial
  · split
    · exact fault rfl
    · trivial

theorem applyRange {f : Function} (hf : f.convention = .range) {kind : ResultKind}
    (hkind : f.result? = some kind) {operands : List Operand}
    (h : ∀ operand ∈ operands, r.AdmitsOperand operand) :
    r.Yields kind.Holds (f.applyRange precision operands) := by
  cases f <;> cases hf <;> cases hkind
  case sum => exact bind (sum operands) fun n hn => number hn
  case product => exact bind (product operands) fun n hn => number hn
  case min => exact bind (extreme _ operands) fun n hn => number hn
  case max => exact bind (extreme _ operands) fun n hn => number hn
  case average => exact bind (average operands) fun n hn => number hn
  case count => exact counted _
  case counta => exact counted _
  case and => exact bind (allTruths operands) fun found _ => .bool _
  case or => exact bind (allTruths operands) fun found _ => .bool _
  case concat =>
    refine bind (mapM (q := fun _ => True) fun x hx => written ?_) fun texts _ => .text _
    obtain ⟨operand, hoperand, hmem⟩ := List.mem_flatMap.mp hx
    exact h operand hoperand x hmem

theorem applyOne {f : Function} (hf : f.convention = .scalar) (haccepts : f.accepts 1)
    {kind : ResultKind} (hkind : f.result? = some kind) {x : Option Scalar} (hx : r.Admits x) :
    r.Yields kind.Holds (f.applyOne precision x) := by
  cases f <;> cases hf <;> cases haccepts <;> cases hkind
  case abs => exact bind (toNumber x) fun n hn => number hn.abs
  case round => exact bind (toNumber x) fun n hn => bind (round hn 0) fun m hm => number hm
  case int => exact bind (toNumber x) fun n _ => bind (carryOn _) fun m hm => number hm
  case sqrt =>
    refine bind (toNumber x) fun n hn => ite (fun _ => fault rfl) fun hlt => ?_
    split
    · rename_i root hroot
      exact number (hn.sqrt (by simpa using hlt) hroot)
    · exact overflow
  case not => exact bind (toBool x) fun b _ => .bool _
  case isBlank => exact .bool _
  case len => exact bind (written hx) fun s _ => counted _
  case upper => exact bind (written hx) fun s _ => .text _
  case lower => exact bind (written hx) fun s _ => .text _
  case trim => exact bind (written hx) fun s _ => .text _

theorem applyTwo {f : Function} (hf : f.convention = .scalar) (haccepts : f.accepts 2)
    {kind : ResultKind} (hkind : f.result? = some kind) (x y : Option Scalar) :
    r.Yields kind.Holds (f.applyTwo x y) := by
  unfold Function.applyTwo
  refine bind (toNumber x) fun a ha => bind (toNumber y) fun b hb => ?_
  cases f <;> cases hf <;> cases haccepts <;> cases hkind
  case round => exact bind (round ha _) fun n hn => number hn
  case mod =>
    refine ite (fun _ => fault rfl) fun hzero => bind (orOverflow _) fun n hn => ?_
    exact number (ha.mod hb (by simpa using hzero) hn)
  case power => exact bind (power a b) fun n hn => number hn

theorem applyScalar {f : Function} (hf : f.convention = .scalar) {kind : ResultKind}
    (hkind : f.result? = some kind) {values : List (Option Scalar)} (haccepts : f.accepts values.length)
    (h : ∀ v ∈ values, r.Admits v) : r.Yields kind.Holds (f.applyScalar precision values) := by
  unfold Function.applyScalar
  split
  · exact applyOne hf haccepts hkind (h _ (by simp))
  · exact applyTwo hf haccepts hkind _ _
  · exact fault rfl

theorem applyLazy (f : Function) {arguments : List Argument}
    (hvalue : ∀ a ∈ arguments, r.Yields r.Admits (a.value ())) :
    r.Yields r.Admits (f.applyLazy arguments) := by
  unfold Function.applyLazy
  split
  · rename_i condition chosen otherwise
    refine bind (hvalue condition (by simp)) fun x _ => bind (toBool x) fun b _ => ?_
    refine ite (fun _ => hvalue chosen (by simp)) fun _ => ?_
    split
    · trivial
    · rename_i other rest
      exact hvalue other (by simp)
  · rename_i tried fallback rest
    split
    · exact hvalue fallback (by simp)
    · exact hvalue tried (by simp)
  · rename_i tried rest
    have htried := hvalue tried (by simp)
    split
    · trivial
    · rename_i failure hfault hfailure
      rw [hfailure] at htried
      exact htried
    · trivial
  · exact fault rfl

theorem operand {a : Argument} (h : r.AdmitsArgument a) :
    r.Yields r.AdmitsOperand (Function.operand a) := by
  unfold Function.operand
  split
  · rename_i cells hcells
    exact (h.cells cells hcells).map fun vs hvs => hvs
  · exact h.value.map fun v hv => by simpa [AdmitsOperand, Operand.values] using hv

/-- Functions that evaluate all their arguments give results of their kind. -/
theorem apply_of_result {f : Function} {kind : ResultKind} (hkind : f.result? = some kind)
    {arguments : List Argument} (haccepts : f.accepts arguments.length)
    (h : ∀ a ∈ arguments, r.AdmitsArgument a) :
    r.Yields kind.Holds (f.apply precision arguments) := by
  unfold Function.apply
  split
  · rename_i hlazy
    cases f <;> cases hlazy <;> cases hkind
  · exact bind (mapM fun a ha => operand (h a ha)) fun operands hoperands =>
      applyRange ‹_› hkind hoperands.2
  · refine bind (mapM fun a ha => (h a ha).value) fun values hvalues => ?_
    exact applyScalar ‹_› hkind (hvalues.1 ▸ haccepts) hvalues.2

theorem apply (f : Function) {arguments : List Argument} (haccepts : f.accepts arguments.length)
    (h : ∀ a ∈ arguments, r.AdmitsArgument a) : r.Yields r.Admits (f.apply precision arguments) := by
  by_cases hlazy : f.convention = .lazy
  · unfold Function.apply
    rw [hlazy]
    exact applyLazy f fun a ha => (h a ha).value
  · obtain ⟨kind, hkind⟩ := Function.exists_result hlazy
    exact (apply_of_result hkind haccepts h).mono fun _ => r.admits_of_holds

end Yields

end Regime
end Spreadsheet
