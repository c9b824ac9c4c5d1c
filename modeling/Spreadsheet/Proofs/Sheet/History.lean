import Spreadsheet.Proofs.Sheet.MovedContents
import Spreadsheet.Proofs.Sheet.Recalculation

/-! Histories: edits by texts, each of what the one before has left, whatever that answered. Contents
are put into cells first, and the cells that they affect are calculated after that. The form of a sheet
outlasts every history, also one in which a calculation breaks off. -/
namespace Spreadsheet.Sheet

inductive Edit where
  | set (place : Address.Given) (content : String)
  | clear (place : Address.Given)
  | load (items : List (Address.Given × String))
  | recalculateAll
  | insertLines (axis : Axis) (index count : Int)
  | deleteLines (axis : Axis) (index count : Int)

def faultOf {α : Type} : Except Fault α → Option Fault
  | .ok _ => none
  | .error fault => some fault

/-- An edit of which only its failure counts. -/
def Edited.toFault {α : Type} (e : Edited (Except Fault α)) : Edited (Option Fault) :=
  ⟨e.sheet, e.events, faultOf e.answer⟩

def perform (s : Sheet) : Edit → Edited (Option Fault)
  | .set place content => (s.set place (.text content)).toFault
  | .clear place => (s.clear place).toFault
  | .load items => (s.load (items.map fun (place, content) => (place, .text content))).toFault
  | .recalculateAll => s.recalculateAll.toFault
  | .insertLines axis index count => (s.insertLines axis index count).toFault
  | .deleteLines axis index count => (s.deleteLines axis index count).toFault

def run (s : Sheet) (history : List Edit) : Sheet :=
  history.foldl (fun s e => (s.perform e).sheet) s

/-- The faults of edits that end with contents put in and cells not calculated. -/
def Fault.interrupts : Fault → Bool
  | .precision _ | .halted => true
  | _ => false

/-- The faults that are found before anything is changed. -/
def Fault.refuses : Fault → Bool
  | .unloadable _ | .precision _ | .halted | .untold => false
  | _ => true

theorem Fault.interrupts_of_refuses {fault : Fault} (h : fault.refuses) : fault.interrupts = false := by
  cases fault <;> first | rfl | cases h

/-- Whether no edit of a history is interrupted. -/
def Uninterrupted (s : Sheet) : List Edit → Prop
  | [] => True
  | e :: history =>
    (∀ fault, (s.perform e).answer = some fault → fault.interrupts = false) ∧
      Uninterrupted (s.perform e).sheet history

theorem run_append (s : Sheet) (history rest : List Edit) :
    s.run (history ++ rest) = (s.run history).run rest := List.foldl_append

theorem run_snoc (s : Sheet) (history : List Edit) (e : Edit) :
    s.run (history ++ [e]) = ((s.run history).perform e).sheet := run_append s history [e]

theorem uninterrupted_snoc {s : Sheet} {history : List Edit} {e : Edit} :
    s.Uninterrupted (history ++ [e]) ↔
      s.Uninterrupted history ∧
        ∀ fault, ((s.run history).perform e).answer = some fault → fault.interrupts = false := by
  induction history generalizing s with
  | nil => simp [Uninterrupted, run]
  | cons e' history ih =>
    rw [List.cons_append, Uninterrupted, Uninterrupted, ih, and_assoc]
    rfl

/-! ## The end of an edit -/

/-- How many errors come up in a pass over some cells. -/
def errorsIn (s : Sheet) (cells : AddressSet) : Nat :=
  ((s.pass cells).toOption.map Pass.errors).getD 0

/-- An edit ends with the sheet that its pass leaves, and tells how many errors came up in it. -/
theorem conclude_eq {α : Type} (s : Sheet) (trigger : Option Address) (cells : AddressSet)
    (before after : List Event) (answer : α) :
    s.conclude trigger cells before after answer =
      match s.recalculate cells with
      | .ok calculated =>
        if trigger.all Address.isWritable then
          ⟨calculated, before ++
            .recalculated trigger calculated.recalculated.length (s.errorsIn cells) :: after, .ok answer⟩
        else ⟨calculated, before, .error .untold⟩
      | .error broken => ⟨broken.sheet, before, .error (.precision broken.fault)⟩ := by
  unfold conclude recalculate errorsIn
  cases s.pass cells <;> rfl

/-- How an edit ends after contents were put into the touched cells: with a pass over what they affect,
which may break off, or at once, where there is nothing to calculate, since every touched cell is refused
for a cycle and shows that. -/
inductive Ended (t : Sheet) (touched : AddressSet) : Sheet → Option Fault → Prop where
  | passed {u : Sheet} {fault : Option Fault} :
    t.recalculate (t.affected touched) = .ok u →
      (∀ f, fault = some f → f.interrupts = false) → Ended t touched u fault
  | broken {b : Broken} :
    t.recalculate (t.affected touched) = .error b →
      Ended t touched b.sheet (some (.precision b.fault))
  | idle {u : Sheet} {fault : Option Fault} :
    (∀ a ∈ touched, ∃ content,
      t.cells[a]? = some ⟨content, .rejected .cycle, .known (.error .cycle)⟩) →
      u.limits = t.limits → u.cells = t.cells → u.graph = t.graph →
      (∀ f, fault = some f → f.interrupts = false) → Ended t touched u fault

/-- The end of an edit leaves contents, kinds and edges as they were put in. -/
theorem Ended.alike {t u : Sheet} {touched : AddressSet} {fault : Option Fault}
    (h : Ended t touched u fault) (ht : t.Formed) : Alike t u := by
  cases h with
  | passed hpass _ => exact (recalculate_eq_ok ht hpass).1
  | broken hpass => exact (recalculate_eq_error hpass).1
  | idle _ hlimits hcells hgraph _ =>
    refine ⟨hlimits.symm, hgraph.symm, fun a => ?_⟩
    unfold Sheet.form?
    rw [hcells]

theorem ended_conclude {α : Type} (t : Sheet) (touched : AddressSet) (trigger : Option Address)
    (before after : List Event) (answer : α) :
    Ended t touched (t.conclude trigger (t.affected touched) before after answer).sheet
      (faultOf (t.conclude trigger (t.affected touched) before after answer).answer) := by
  rw [conclude_eq]
  split
  · rename_i u hpass
    split
    · exact .passed hpass fun f hf => by cases hf
    · exact .passed hpass fun f hf => by cases hf; rfl
  · rename_i b hpass
    exact .broken hpass

/-- A pass that no single cell caused is always told of. -/
theorem answer_conclude {α : Type} (t : Sheet) (cells : AddressSet) (before after : List Event)
    (answer : α) :
    (t.conclude none cells before after answer).answer = .ok answer ∨
      ∃ fault, (t.conclude none cells before after answer).answer = .error (.precision fault) := by
  rw [conclude_eq]
  split
  · exact .inl rfl
  · exact .inr ⟨_, rfl⟩

theorem untold_conclude {α : Type} {t : Sheet} {trigger : Option Address} {cells : AddressSet}
    {before after : List Event} {answer : α}
    (h : (t.conclude trigger cells before after answer).answer = .error .untold) :
    ∃ a, trigger = some a ∧ a.isWritable = false := by
  rw [conclude_eq] at h
  split at h
  · split at h
    · cases h
    · rename_i hlong
      cases trigger with
      | none => exact absurd rfl hlong
      | some a => exact ⟨a, rfl, by simpa using hlong⟩
  · cases h

/-- What an edit can do to a sheet: it puts contents into cells and calculates, unless it stops at a
refusal that cannot be told of. -/
def Edits (base u : Sheet) (fault : Option Fault) : Prop :=
  ∃ touched t, Staged base touched t ∧
    (Ended t touched u fault ∨ Halted t u ∧ fault = some .halted)

namespace Edits

variable {base u : Sheet} {fault : Option Fault}

theorem refused {fault : Fault} (h : fault.refuses) : Edits base base (some fault) := by
  refine ⟨∅, base, .start ∅, .inl (.idle (by simp) rfl rfl rfl fun f hf => ?_)⟩
  cases hf
  exact Fault.interrupts_of_refuses h

theorem formed (h : Edits base u fault) (hbase : base.Formed) : u.Formed := by
  obtain ⟨touched, t, hstaged, hend | ⟨⟨a, content, hin, hcontent, -, rfl⟩, -⟩⟩ := h
  · exact (hend.alike (hstaged.formed hbase)).formed (hstaged.formed hbase)
  · exact (hstaged.formed hbase).stage hin hcontent

theorem limits (h : Edits base u fault) (hbase : base.Formed) : u.limits = base.limits := by
  obtain ⟨touched, t, hstaged, hend | ⟨⟨a, content, -, -, -, rfl⟩, -⟩⟩ := h
  · rw [← (hend.alike (hstaged.formed hbase)).limits, hstaged.limits]
  · rw [limits_stage, hstaged.limits]

/-- An edit that succeeded might as well have failed for a reason that does not interrupt it. -/
theorem of_none (h : Edits base u none) (hfault : ∀ f, fault = some f → f.interrupts = false) :
    Edits base u fault := by
  obtain ⟨touched, t, hstaged, hend | ⟨-, hhalted⟩⟩ := h
  · refine ⟨touched, t, hstaged, .inl ?_⟩
    generalize hnone : (none : Option Fault) = found at hend
    cases hend with
    | passed hpass _ => exact .passed hpass hfault
    | broken _ => cases hnone
    | idle hcells hlimits hsame hgraph _ => exact .idle hcells hlimits hsame hgraph hfault
  · cases hhalted

end Edits

theorem refuses_of_locate {s : Sheet} {place : Address.Given} {fault : Fault}
    (h : s.locate place = .error fault) : fault.refuses := by
  unfold locate at h
  split at h
  · cases h
    rfl
  · split at h
    · contradiction
    · cases h
      rfl

theorem refuses_of_locateAll {s : Sheet} {items : List (Address.Given × Datum)} {fault : Fault}
    (h : s.locateAll items = .error fault) : fault.refuses := by
  unfold locateAll at h
  generalize (∅ : AddressMap Datum) = start at h
  induction items generalizing start with
  | nil => contradiction
  | cons item items ih =>
    obtain ⟨place, content⟩ := item
    rw [List.foldlM_cons] at h
    dsimp only at h
    cases hplace : s.locate place with
    | error f =>
      rw [hplace] at h
      cases h
      exact refuses_of_locate hplace
    | ok a =>
      rw [hplace] at h
      exact ih _ h

theorem refuses_of_placeAll {s : Sheet} {items : List (Address.Given × String)} {fault : Fault}
    (h : s.placeAll items = .error fault) : fault.refuses := by
  have hplaces := locateAll_texts s items
  rw [h] at hplaces
  exact refuses_of_locateAll hplaces

/-! ## Single cells -/

/-- The diagnostics of an edit of one cell. -/
def told : Except Fault (Option Diagnostic) → List Diagnostic
  | .ok found => found.toList
  | .error _ => []

/-- An edit of one cell is a batch of one content, followed by a pass over what it affects, unless the
batch ends at a refusal that cannot be told of. -/
inductive Entered (s : Sheet) (item : Address × String)
    (e : Edited (Except Fault (Option Diagnostic))) : Prop where
  | ended {b : Batch} :
    (Batch.start s).put item = .ok b → Ended b.sheet b.touched e.sheet (faultOf e.answer) →
      ((∀ f, faultOf e.answer = some f → f.interrupts = false) → told e.answer = b.diagnostics) →
        Entered s item e
  | halted {b : Batch} :
    (Batch.start s).put item = .error b → e.sheet = b.sheet → e.answer = .error .halted →
      Entered s item e

theorem told_conclude {t : Sheet} {a : Address} {cells : AddressSet} {before after : List Event}
    {found : Option Diagnostic} (hfound : ∀ d, found = some d → a.isWritable)
    (h : ∀ f, faultOf (t.conclude (some a) cells before after found).answer = some f →
      f.interrupts = false) :
    told (t.conclude (some a) cells before after found).answer = found.toList := by
  rw [conclude_eq] at h ⊢
  split at h
  · rename_i u hpass
    split at h
    · rename_i hwritable
      rw [if_pos hwritable]
      rfl
    · rename_i hlong
      rw [if_neg hlong]
      cases found with
      | none => rfl
      | some d =>
        rw [Option.all_some, hfound d rfl] at hlong
        exact absurd rfl hlong
  · have hcalm := h _ rfl
    cases hcalm

theorem entered_clearAt {s : Sheet} (hs : s.Formed) (a : Address) {content : String}
    (hblank : Text.isAllBlank content = true) : Entered s (a, content) (s.clearAt a) := by
  have hput : (Batch.start s).put (a, content) =
      if s.cells.contains a then .ok ⟨s.vacate a, {a}, []⟩ else .ok (.start s) := by
    unfold Batch.put
    dsimp only
    rw [if_pos hblank]
    rfl
  unfold clearAt
  dsimp only
  split
  · rename_i hoccupied
    rw [if_pos hoccupied] at hput
    exact .ended hput (ended_conclude ..) fun hcalm => told_conclude (by simp) hcalm
  · rename_i hvacant
    rw [if_neg hvacant] at hput
    rw [Std.ExtTreeMap.contains_iff_mem] at hvacant
    rw [hs.vacate_eq_self hvacant]
    exact .ended hput (.idle (by simp [Batch.start]) rfl rfl rfl fun f hf => by cases hf) fun _ => rfl

/-- How it goes on after content that is not blank was put into a cell: the edit stops at a refusal that
cannot be told of, calculates nothing where the content is refused for a cycle, and ends with a pass
otherwise. -/
inductive AfterStage (s : Sheet) (a : Address) (content : String) :
    Edited (Except Fault (Option Diagnostic)) → Prop where
  | halted : (s.stage a content).2.all (Rejection.isTellable a) = false →
    AfterStage s a content ⟨(s.stage a content).1, [], .error .halted⟩
  | rested {path : List Address} : (s.stage a content).2 = some (.circular path) → a.isWritable →
    AfterStage s a content ⟨{ (s.stage a content).1 with recalculated := [] },
      [.rejected ⟨a, .circular path⟩], .ok (some ⟨a, .circular path⟩)⟩
  | concluded {found : Option Diagnostic} : found = (s.stage a content).2.map (Diagnostic.mk a) →
    (∀ path, (s.stage a content).2 ≠ some (.circular path)) →
      (s.stage a content).2.all (Rejection.isTellable a) →
        AfterStage s a content ((s.stage a content).1.conclude (some a)
          ((s.stage a content).1.affected {a}) (found.toList.map .rejected)
          [.cellSet a (Formula.isFormulaText content)] found)

theorem afterStage_enter (s : Sheet) (a : Address) (content : String) :
    s.AfterStage a content (s.enter a content) := by
  have hhalted := @AfterStage.halted s a content
  have hrested := @AfterStage.rested s a content
  have hconcluded := @AfterStage.concluded s a content
  unfold enter
  generalize s.stage a content = result at *
  obtain ⟨staged, rejection⟩ := result
  dsimp only at *
  split
  · rename_i hsilent
    rw [Bool.not_eq_true'] at hsilent
    exact hhalted hsilent
  · rename_i htold
    rw [Bool.not_eq_true', Bool.not_eq_false] at htold
    split
    · exact hrested rfl (Rejection.isWritable_of_isTellable rfl htold)
    · rename_i hfree
      exact hconcluded rfl (fun path hpath => hfree path hpath) htold

theorem entered_enter (s : Sheet) (a : Address) {content : String}
    (hcontent : Text.isAllBlank content = false) : Entered s (a, content) (s.enter a content) := by
  have hput : (Batch.start s).put (a, content) =
      if !(s.stage a content).2.all (Rejection.isTellable a) then
        .error ⟨(s.stage a content).1, ∅, []⟩
      else .ok ⟨(s.stage a content).1, {a}, ((s.stage a content).2.map (Diagnostic.mk a)).toList⟩ := by
    unfold Batch.put Batch.start
    dsimp only
    rw [if_neg (by simp [hcontent]), List.append_nil]
    rfl
  have hafter := s.afterStage_enter a content
  generalize s.enter a content = r at hafter ⊢
  cases hafter with
  | halted hsilent =>
    rw [if_pos (by rw [hsilent]; rfl)] at hput
    exact .halted hput rfl rfl
  | rested hpath hrow =>
    rw [if_neg (by simp [hpath, Rejection.isTellable, Rejection.numbers, hrow])] at hput
    refine .ended hput (.idle (fun x hx => ?_) rfl rfl rfl fun f hf => by cases hf) fun _ => ?_
    · obtain rfl : a = x := by simpa [Std.LawfulEqOrd.compare_eq_iff_eq] using hx
      exact ⟨content, stage_circular hpath⟩
    · rw [hpath]
      rfl
  | concluded hfound _ htold =>
    rw [if_neg (by rw [htold]; simp), ← hfound] at hput
    refine .ended hput (ended_conclude ..) (told_conclude fun d hd => ?_)
    rw [hfound, Option.map_eq_some_iff] at hd
    obtain ⟨r, hr, -⟩ := hd
    exact Rejection.isWritable_of_isTellable hr htold

theorem entered_set {s : Sheet} (hs : s.Formed) {place : Address.Given} {a : Address}
    (ha : s.locate place = .ok a) (content : String) :
    Entered s (a, content) (s.set place (.text content)) := by
  unfold set
  dsimp only
  rw [ha]
  dsimp only
  split
  · rename_i hblank
    exact entered_clearAt hs a hblank
  · rename_i hcontent
    exact entered_enter s a (by simpa using hcontent)

theorem Entered.edits {s : Sheet} {item : Address × String}
    {e : Edited (Except Fault (Option Diagnostic))} (h : Entered s item e)
    (hin : s.limits.Holds item.1) : Edits s e.sheet (faultOf e.answer) := by
  cases h with
  | ended hb hend _ => exact ⟨_, _, staged_of_put hin hb, .inl hend⟩
  | halted hb hsheet hanswer =>
    rw [hsheet, hanswer]
    exact ⟨∅, s, .start ∅, .inr ⟨halted_of_put hin hb, rfl⟩⟩

theorem edits_set {s : Sheet} (hs : s.Formed) (place : Address.Given) (content : String) :
    Edits s (s.set place (.text content)).sheet (faultOf (s.set place (.text content)).answer) := by
  cases hplace : s.locate place with
  | ok a => exact (entered_set hs hplace content).edits (holds_of_locate hplace)
  | error fault =>
    unfold set
    dsimp only
    rw [hplace]
    exact .refused (refuses_of_locate hplace)

/-- To clear a cell is to set it to nothing. -/
theorem clear_eq_set (s : Sheet) (place : Address.Given) : s.clear place = s.set place (.text "") := by
  unfold clear set
  dsimp only
  cases s.locate place with
  | ok a => rfl
  | error fault => rfl

/-! ## Many cells -/

theorem edits_enterAll {s : Sheet} {contents : AddressMap String}
    (hin : ∀ item ∈ contents.toList, s.limits.Holds item.1) :
    Edits s (s.enterAll contents).sheet (faultOf (s.enterAll contents).answer) := by
  have hafter := afterPuts_enterAll hin
  generalize s.enterAll contents = r at hafter ⊢
  cases hafter with
  | halted _ hstaged hhalted => exact ⟨_, _, hstaged, .inr ⟨hhalted, rfl⟩⟩
  | concluded _ hstaged => exact ⟨_, _, hstaged, .inl (ended_conclude ..)⟩

theorem not_untold_enterAll {s : Sheet} {contents : AddressMap String} :
    (s.enterAll contents).answer ≠ .error .untold := by
  unfold enterAll
  split
  · simp
  · intro h
    obtain ⟨_, hnone, -⟩ := untold_conclude h
    cases hnone

theorem edits_load {s : Sheet} (items : List (Address.Given × String)) :
    Edits s (s.load (items.map fun (place, content) => (place, .text content))).sheet
      (faultOf (s.load (items.map fun (place, content) => (place, .text content))).answer) := by
  rw [load_texts]
  split
  · rename_i fault hfault
    exact .refused (refuses_of_placeAll hfault)
  · rename_i texts htexts
    exact edits_enterAll (holds_of_placeAll htexts)

theorem edits_recalculateAll {s : Sheet} (hs : s.Formed) :
    Edits s s.recalculateAll.sheet (faultOf s.recalculateAll.answer) := by
  unfold recalculateAll
  rw [← affected_occupied hs]
  exact ⟨_, _, .start _, .inl (ended_conclude ..)⟩

/-! ## Lines -/

/-- Where an edit of lines starts from: all cells are entered anew. -/
def emptied (s : Sheet) (e : LineEdit) : Sheet :=
  { s with
    limits := s.limits.edit e
    cells := ∅
    graph := ∅
    settings := (s.limits.edit e).adopt e.axis s.settings }

/-- How it goes on after the cells were moved: the edit is refused where a formula cannot be rewritten.
Otherwise the moved contents are entered, and an edit that comes to its end is told of if its numbers can
be written. -/
inductive AfterMove (s : Sheet) (e : LineEdit) : Edited (Except Fault (List Diagnostic)) → Prop where
  | refused {limit : Number.DigitLimit} : s.movedContents e = .error limit →
    AfterMove s e (s.refuse (.tooLong limit))
  | told {contents : AddressMap String} {found : List Diagnostic} : s.movedContents e = .ok contents →
    ((s.emptied e).enterAll contents).answer = .ok found →
      AfterMove s e ⟨((s.emptied e).enterAll contents).sheet,
        ((s.emptied e).enterAll contents).events ++ [.restructured e contents.size], .ok found⟩
  | untold {contents : AddressMap String} {found : List Diagnostic} :
    s.movedContents e = .ok contents → ((s.emptied e).enterAll contents).answer = .ok found →
      (Number.isWritable e.index = false ∨ Number.isWritable e.count = false) →
        AfterMove s e ⟨((s.emptied e).enterAll contents).sheet,
          ((s.emptied e).enterAll contents).events, .error .untold⟩
  | failed {contents : AddressMap String} {fault : Fault} : s.movedContents e = .ok contents →
    ((s.emptied e).enterAll contents).answer = .error fault →
      AfterMove s e ⟨((s.emptied e).enterAll contents).sheet,
        ((s.emptied e).enterAll contents).events, .error fault⟩

theorem afterMove_restructure (s : Sheet) (e : LineEdit) : s.AfterMove e (s.restructure e) := by
  unfold restructure
  split
  · rename_i limit hlimit
    exact .refused hlimit
  · rename_i contents hcontents
    dsimp only
    split
    · rename_i found hfound
      split
      · exact .told hcontents hfound
      · rename_i hlong
        rw [Bool.not_eq_true, Bool.and_eq_false_iff] at hlong
        exact .untold hcontents hfound hlong
    · rename_i fault hfault
      exact .failed hcontents hfault

theorem edits_restructure {s : Sheet} (hs : s.Formed) {e : LineEdit} (hindex : 0 ≤ e.index)
    (hlast : 0 < e.count ∨ e.stop ≤ s.lineCount e.axis) :
    ∃ base, (base = s ∨ base = s.emptied e) ∧
      Edits base (s.restructure e).sheet (faultOf (s.restructure e).answer) := by
  have hentered : ∀ contents, s.movedContents e = .ok contents →
      Edits (s.emptied e) ((s.emptied e).enterAll contents).sheet
        (faultOf ((s.emptied e).enterAll contents).answer) := fun contents hcontents =>
    edits_enterAll fun item hitem =>
      inside_movedContents hs hindex hlast hcontents item.1 (mem_of_mem_toList hitem)
  have hafter := s.afterMove_restructure e
  generalize s.restructure e = r at hafter ⊢
  cases hafter with
  | refused _ => exact ⟨s, .inl rfl, .refused rfl⟩
  | told hcontents hfound => exact ⟨_, .inr rfl, hfound ▸ hentered _ hcontents⟩
  | untold hcontents hfound _ =>
    have hedits := hentered _ hcontents
    rw [hfound] at hedits
    exact ⟨_, .inr rfl, hedits.of_none fun f hf => by cases hf; rfl⟩
  | failed hcontents hfault => exact ⟨_, .inr rfl, hfault ▸ hentered _ hcontents⟩

/-- How an edit of lines can go: it is refused, or it moves the cells. -/
inductive MovesLines (s : Sheet) : Edited (Except Fault (List Diagnostic)) → Prop where
  | refused {fault : Fault} : fault.refuses → MovesLines s (s.refuse fault)
  | moved {e : LineEdit} :
    0 ≤ e.index → e.index ≤ s.lineCount e.axis → (0 < e.count ∨ e.stop ≤ s.lineCount e.axis) →
      MovesLines s (s.restructure e)

theorem movesLines_insert (s : Sheet) (axis : Axis) (index count : Int) :
    s.MovesLines (s.insertLines axis index count) := by
  unfold insertLines
  split
  · exact .refused rfl
  split
  · exact .refused rfl
  split
  · exact .refused rfl
  · exact .moved (by dsimp only; omega) (by dsimp only; omega) (.inl (by dsimp only; omega))

theorem movesLines_delete (s : Sheet) (axis : Axis) (index count : Int) :
    s.MovesLines (s.deleteLines axis index count) := by
  unfold deleteLines
  split
  · exact .refused rfl
  split
  · exact .refused rfl
  · refine .moved (by dsimp only; omega) (by dsimp only; omega) (.inr ?_)
    unfold LineEdit.stop
    dsimp only
    omega

theorem MovesLines.edits {s : Sheet} {r : Edited (Except Fault (List Diagnostic))} (h : s.MovesLines r)
    (hs : s.Formed) : ∃ base, (base = s ∨ ∃ edit, base = s.emptied edit) ∧
      Edits base r.sheet (faultOf r.answer) := by
  cases h with
  | refused hrefuses => exact ⟨s, .inl rfl, .refused hrefuses⟩
  | @moved e hindex _ hlast =>
    obtain ⟨base, hbase, hedits⟩ := edits_restructure hs hindex hlast
    exact ⟨base, hbase.imp_right fun heq => ⟨e, heq⟩, hedits⟩

/-! ## Runs -/

/-- What every edit does: it puts contents into cells of the sheet, or of the emptied sheet with new
bounds, and calculates. -/
theorem edits_perform {s : Sheet} (hs : s.Formed) (e : Edit) :
    ∃ base, (base = s ∨ ∃ edit, base = s.emptied edit) ∧
      Edits base (s.perform e).sheet (s.perform e).answer := by
  cases e with
  | set place content => exact ⟨s, .inl rfl, edits_set hs place content⟩
  | clear place =>
    unfold perform
    dsimp only
    rw [clear_eq_set]
    exact ⟨s, .inl rfl, edits_set hs place ""⟩
  | load items => exact ⟨s, .inl rfl, edits_load items⟩
  | recalculateAll => exact ⟨s, .inl rfl, edits_recalculateAll hs⟩
  | insertLines axis index count => exact (movesLines_insert s axis index count).edits hs
  | deleteLines axis index count => exact (movesLines_delete s axis index count).edits hs

/-- Where edits start from. -/
theorem Formed.base {s base : Sheet} (hs : s.Formed)
    (hbase : base = s ∨ ∃ edit, base = s.emptied edit) : base.Formed := by
  rcases hbase with rfl | ⟨edit, rfl⟩
  · exact hs
  · exact formed_of_empty

theorem Formed.perform {s : Sheet} (hs : s.Formed) (e : Edit) : (s.perform e).sheet.Formed := by
  obtain ⟨base, hbase, hedits⟩ := edits_perform hs e
  exact hedits.formed (hs.base hbase)

theorem formed_run (limits : Limits) (history : List Edit) : ((new limits).run history).Formed := by
  induction history using List.reverseRecOn with
  | nil => exact formed_of_empty
  | append_singleton history e ih =>
    rw [run_snoc]
    exact ih.perform e

/-- After every history the edges close no cycle and are the same in both directions. An accepted
formula reads the cells within the bounds that it names and no others; nothing else has edges of its own
but a formula refused for a cycle. All cells and all ends of edges lie inside the sheet. -/
theorem edges_run (limits : Limits) (history : List Edit) :
    let s := (new limits).run history
    s.graph.Acyclic ∧
      (∀ a b, a ∈ s.graph.readersOf b ↔ s.graph.Reads a b) ∧
      (∀ a c f, s.cells[a]? = some c → c.formula? = some f →
        Formula.parse c.content = .ok f ∧
          ∀ b, s.graph.Reads a b ↔ s.bounds.contains b ∧ f.Names b) ∧
      (∀ a c, s.cells[a]? = some c → c.formula? = none → c.rejection? ≠ some .cycle →
        ∀ b, ¬s.graph.Reads a b) ∧
      (∀ a, a ∉ s.cells → ∀ b, ¬s.graph.Reads a b) ∧
      (∀ a ∈ s.cells, s.limits.Holds a) ∧
      ∀ a b, s.graph.Reads a b → s.limits.Holds a ∧ s.limits.Holds b := by
  intro s
  have hs : s.Formed := formed_run limits history
  have hinside : ∀ a ∈ s.cells, s.limits.Holds a := by
    intro a ha
    obtain ⟨c, hc⟩ := Option.isSome_iff_exists.mp (Std.ExtTreeMap.mem_iff_isSome_getElem?.mp ha)
    exact hs.inside a _ (form?_of_getElem? hc)
  refine ⟨hs.acyclic, hs.sound.transposed, ?_, ?_, ?_, hinside, ?_⟩
  · intro a c f hc hf
    obtain ⟨content, kind, result⟩ := c
    have hform := form?_of_getElem? hc
    cases kind with
    | formula tree =>
      cases hf
      refine ⟨(hs.fits a _ hform).2.1, fun b => ?_⟩
      rw [Graph.Reads, hs.reads a (f.addresses s.bounds) (by rw [hform]; rfl)]
      exact Formula.mem_addresses
    | constant => contradiction
    | rejected reason => contradiction
  · intro a c hc hformula hcycle b
    obtain ⟨content, kind, result⟩ := c
    have hform := form?_of_getElem? hc
    have hreads : s.graph.readsOf a = ∅ := by
      apply hs.reads
      rw [hform]
      unfold formReads? Cell.Kind.reads?
      dsimp only
      split
      · contradiction
      · exact absurd rfl hcycle
      · rfl
    rw [Graph.Reads, hreads]
    exact Std.ExtTreeSet.not_mem_empty
  · exact fun a ha b => hs.not_reads_of_vacant (form?_eq_none.mpr ha)
  · intro a b hab
    refine ⟨hinside a ?_, hs.targets a b hab⟩
    by_contra ha
    exact hs.not_reads_of_vacant (form?_eq_none.mpr ha) hab

end Spreadsheet.Sheet
