import Spreadsheet.Proofs.Sheet.Staging

/-! Contents entered into an empty sheet. Cells that read only one another and close no cycle are taken
for what their texts say, in whichever order the contents come and whatever the others are taken for. -/
namespace Spreadsheet.Sheet

/-- Whether it can be foreseen what some cells are taken for once the contents are entered: their texts
tell, and the edges that they call for lead to such cells only and close no cycle. -/
structure Foreseen (s : Sheet) (contents : AddressMap String) (p : Address → Prop)
    (r : Address → Address → Prop) : Prop where
  inside : ∀ a ∈ contents, s.limits.Holds a
  visible : ∀ (a : Address) content, contents[a]? = some content → Text.isAllBlank content = false
  acyclic : ∀ a, p a → ¬Relation.TransGen r a a
  kind : ∀ (a : Address) content, p a → contents[a]? = some content →
    ∃ kind : Cell.Kind, kind.Fits s.limits content ∧ kind ≠ .rejected .cycle ∧
      ∀ targets, kind.reads? s.bounds = some targets → ∀ b ∈ targets, p b ∧ r a b

/-- A batch that has entered some contents into an empty sheet, but for those that are left. -/
structure Entering (s : Sheet) (contents : AddressMap String) (p : Address → Prop)
    (left : List (Address × String)) (b : Batch) : Prop where
  staged : Staged s b.touched b.sheet
  content : ∀ x, (b.sheet.form? x).map Prod.fst =
    if x ∈ left.map Prod.fst then none else contents[x]?
  touched : ∀ x ∈ contents, x ∉ left.map Prod.fst → x ∈ b.touched
  free : ∀ x, p x → ¬b.sheet.Circular x
  diagnostics : ∀ d ∈ b.diagnostics, d.rejection.kind = .cycle → ¬p d.address

namespace Entering

variable {s : Sheet} {contents : AddressMap String} {p : Address → Prop}
  {r : Address → Address → Prop} {left : List (Address × String)} {b : Batch} {a : Address}
  {content : String}

theorem bounds (h : Entering s contents p left b) : b.sheet.bounds = s.bounds := by
  unfold Sheet.bounds
  rw [h.staged.limits]

theorem content_of_form? (h : Entering s contents p left b) {kind : Cell.Kind}
    (ha : b.sheet.form? a = some (content, kind)) : contents[a]? = some content := by
  have hcontent := h.content a
  rw [ha, Option.map_some] at hcontent
  split at hcontent
  · contradiction
  · exact hcontent.symm

/-- What is entered there is taken for what was foreseen. -/
theorem kind_unique (h : Entering s contents p left b) (hs : s.Formed) (hpa : p a)
    {kind kind' : Cell.Kind} (ha : b.sheet.form? a = some (content, kind)) (hfits : kind'.Fits s.limits content)
    (hkind' : kind' ≠ .rejected .cycle) : kind = kind' := by
  have hkind := (h.staged.formed hs).fits a _ ha
  rw [h.staged.limits] at hkind
  exact hkind.unique hfits (ne_cycle_of_form? (h.free a hpa) ha) hkind'

/-- On the way all edges from such cells are among those foreseen. -/
theorem reads (h : Entering s contents p left b) (hs : s.Formed) (hp : Foreseen s contents p r)
    {x y : Address} (hx : p x) (hxy : b.sheet.graph.Reads x y) : p y ∧ r x y := by
  have hb := h.staged.formed hs
  cases hform : b.sheet.form? x with
  | none => exact absurd hxy (hb.not_reads_of_vacant hform)
  | some form =>
    obtain ⟨content, kind⟩ := form
    obtain ⟨kind', hfits, hkind', htargets⟩ := hp.kind x content hx (h.content_of_form? hform)
    obtain rfl := h.kind_unique hs hx hform hfits hkind'
    obtain ⟨targets, hreads⟩ := Cell.Kind.exists_reads? (b := s.bounds) hkind'
    apply htargets targets hreads
    rwa [Graph.Reads, hb.reads x targets (by rw [hform, h.bounds]; exact hreads)] at hxy

/-- What is entered there closes no cycle. -/
theorem cyclePath? (h : Entering s contents p left b) (hs : s.Formed) (hp : Foreseen s contents p r)
    (ha : p a) {targets : AddressSet} (htargets : ∀ x ∈ targets, p x ∧ r a x) :
    b.sheet.graph.cyclePath? a targets = none := by
  rw [← Option.not_isSome_iff_eq_none, Graph.isSome_cyclePath?]
  rintro ⟨x, hx, hway⟩
  obtain ⟨hpx, hax⟩ := htargets x hx
  have hforeseen : ∀ y, Relation.ReflTransGen b.sheet.graph.Reads x y →
      p y ∧ Relation.ReflTransGen r x y := by
    intro y hxy
    induction hxy with
    | refl => exact ⟨hpx, .refl⟩
    | tail _ hyz ih =>
      obtain ⟨hpz, hforeseen⟩ := h.reads hs hp ih.1 hyz
      exact ⟨hpz, ih.2.tail hforeseen⟩
  exact hp.acyclic a ha (Relation.TransGen.head' hax (hforeseen a hway).2)

/-- What the next content is taken for. -/
theorem exists_kind (h : Entering s contents p left b) (hs : s.Formed) (hp : Foreseen s contents p r)
    (ha : contents[a]? = some content) :
    ∃ kind : Cell.Kind, kind.Fits s.limits content ∧ (p a → kind ≠ .rejected .cycle) ∧
      (b.sheet.stage a content).2.map Rejection.kind = kind.reason? ∧
      ∀ x, (b.sheet.stage a content).1.form? x =
        if x = a then some (content, kind) else b.sheet.form? x := by
  obtain ⟨kind, hfits, hreason, hform⟩ := form?_stage b.sheet a content
  refine ⟨kind, h.staged.limits ▸ hfits, fun hpa => ?_, hreason, hform⟩
  obtain ⟨kind', hfits', hkind', htargets⟩ := hp.kind a content hpa ha
  obtain ⟨hreason', -⟩ := stage_of_fits (s := b.sheet) (a := a) (h.staged.limits ▸ hfits') hkind'
    fun targets hreads => h.cyclePath? hs hp hpa (htargets targets (h.bounds ▸ hreads))
  rintro rfl
  rw [hreason] at hreason'
  exact hkind' (Cell.Kind.reason?_eq_some.mp hreason'.symm)

/-- Entering a content that is left and can be told of if it is refused. -/
theorem stage (h : Entering s contents p ((a, content) :: left) b) (hs : s.Formed)
    (hp : Foreseen s contents p r) (ha : contents[a]? = some content) (hleft : a ∉ left.map Prod.fst)
    (htold : (b.sheet.stage a content).2.all (Rejection.isTellable a)) :
    Entering s contents p left ⟨(b.sheet.stage a content).1, b.touched.insert a,
      ((b.sheet.stage a content).2.map (Diagnostic.mk a)).toList ++ b.diagnostics⟩ := by
  obtain ⟨kind, -, hkind, hreason, hform⟩ := h.exists_kind hs hp ha
  have hmem : a ∈ contents := by
    rw [Std.ExtTreeMap.mem_iff_isSome_getElem?, ha]
    rfl
  have hcons : ∀ x, x ≠ a → (x ∈ ((a, content) :: left).map Prod.fst ↔ x ∈ left.map Prod.fst) := by
    intro x hx
    simp [hx]
  refine ⟨h.staged.stage a content (hp.inside a hmem) (hp.visible a content ha) htold,
    fun x => ?_, fun x hx hx' => ?_, fun x hpx hx => ?_, fun d hd hcycle => ?_⟩
  · rw [hform]
    by_cases hxa : x = a
    · rw [if_pos hxa, hxa, if_neg hleft, ha]
      rfl
    · rw [if_neg hxa, h.content]
      simp only [hcons x hxa]
  · rw [Std.ExtTreeSet.mem_insert, Std.LawfulEqOrd.compare_eq_iff_eq]
    by_cases hxa : x = a
    · exact .inl hxa.symm
    · exact .inr (h.touched x hx fun hmem => hx' ((hcons x hxa).mp hmem))
  · obtain ⟨text, hx⟩ := circular_iff.mp hx
    rw [hform] at hx
    split at hx
    · rename_i hxa
      cases hx
      exact hkind (hxa ▸ hpx) rfl
    · exact h.free x hpx (circular_iff.mpr ⟨text, hx⟩)
  · rw [List.mem_append, Option.mem_toList, Option.map_eq_some_iff] at hd
    rcases hd with ⟨found, hfound, rfl⟩ | hd
    · rw [hfound] at hreason
      intro hpa
      exact hkind hpa ((Cell.Kind.reason?_eq_some.mp hreason.symm).trans (congrArg _ hcycle))
    · exact h.diagnostics d hd hcycle

end Entering

/-- Whether one of the contents is refused and a number is too long to tell of it. -/
def Untellable (s : Sheet) (contents : AddressMap String) (p : Address → Prop) : Prop :=
  ∃ (a : Address) (content : String) (reason : ErrorKind), contents[a]? = some content ∧
    (Cell.Kind.rejected reason).Fits s.limits content ∧ s.limits.tells a reason = false ∧
      (p a → reason ≠ .cycle)

namespace Entering

variable {s : Sheet} {contents : AddressMap String} {p : Address → Prop}
  {r : Address → Address → Prop} {left : List (Address × String)} {b : Batch} {a : Address}
  {content : String}

theorem put (h : Entering s contents p ((a, content) :: left) b) (hs : s.Formed)
    (hp : Foreseen s contents p r) (ha : contents[a]? = some content)
    (hleft : a ∉ left.map Prod.fst) :
    (∃ b', b.put (a, content) = .ok b' ∧ Entering s contents p left b') ∨
      (∃ b', b.put (a, content) = .error b') ∧ s.Untellable contents p := by
  have hvisible := hp.visible a content ha
  have hafter := afterPut_put b a content
  generalize b.put (a, content) = next at hafter ⊢
  cases hafter with
  | emptied hblank _ | kept hblank _ => exact absurd hblank (by simp [hvisible])
  | halted _ hsilent =>
    obtain ⟨kind, hfits, hkind, hreason, -⟩ := h.exists_kind hs hp ha
    obtain ⟨reason, rfl, hlong⟩ := (all_isTellable_eq_false hreason).mp hsilent
    rw [h.staged.limits] at hlong
    refine .inr ⟨⟨_, rfl⟩, a, content, reason, ha, hfits, hlong, fun hpa hcycle => ?_⟩
    exact hkind hpa (congrArg _ hcycle)
  | staged _ htold => exact .inl ⟨_, rfl, h.stage hs hp ha hleft htold⟩

theorem putAll (h : Entering s contents p left b) (hs : s.Formed) (hp : Foreseen s contents p r)
    (hcontents : ∀ item ∈ left, contents[item.1]? = some item.2)
    (hnodup : (left.map Prod.fst).Nodup) :
    (∃ b', b.putAll left = .ok b' ∧ Entering s contents p [] b') ∨
      (∃ b', b.putAll left = .error b') ∧ s.Untellable contents p := by
  unfold Batch.putAll
  induction left generalizing b with
  | nil => exact .inl ⟨b, rfl, h⟩
  | cons item left ih =>
    obtain ⟨a, content⟩ := item
    obtain ⟨hleft, hnodup⟩ := List.nodup_cons.mp hnodup
    rw [List.foldlM_cons]
    rcases h.put hs hp (hcontents (a, content) List.mem_cons_self) hleft with
      ⟨b', hput, hb'⟩ | ⟨⟨b', hput⟩, huntold⟩
    · rw [hput]
      exact ih hb' (fun item hmem => hcontents item (List.mem_cons_of_mem _ hmem)) hnodup
    · rw [hput]
      exact .inr ⟨⟨b', rfl⟩, huntold⟩

end Entering

/-- Contents entered into an empty sheet, unless a refusal cannot be told of. -/
theorem Foreseen.putAll {s : Sheet} {contents : AddressMap String} {p : Address → Prop}
    {r : Address → Address → Prop} (hp : Foreseen s contents p r) (hs : s.Formed)
    (hvacant : ∀ x, s.form? x = none) :
    (∃ b, (Batch.start s).putAll contents.toList = .ok b ∧ Entering s contents p [] b) ∨
      (∃ b, (Batch.start s).putAll contents.toList = .error b) ∧ s.Untellable contents p := by
  have hkeys : ∀ x, x ∈ contents.toList.map Prod.fst ↔ x ∈ contents := by
    intro x
    rw [Std.ExtTreeMap.map_fst_toList_eq_keys, Std.ExtTreeMap.mem_keys]
  refine Entering.putAll ⟨.start ∅, fun x => ?_, fun x hx hx' => ?_, fun x _ hx => ?_, ?_⟩ hs hp
    (fun item hitem => Std.ExtTreeMap.mem_toList_iff_getElem?_eq_some.mp hitem)
    (nodup_map_fst_toList contents)
  · have hnone : (Batch.start s).sheet.form? x = none := hvacant x
    rw [hnone]
    split
    · rfl
    · rename_i hx
      rw [hkeys] at hx
      exact (Std.ExtTreeMap.getElem?_eq_none hx).symm
  · exact absurd ((hkeys x).mpr hx) hx'
  · obtain ⟨text, htext⟩ := circular_iff.mp hx
    have hnone : (Batch.start s).sheet.form? x = none := hvacant x
    rw [hnone] at htext
    contradiction
  · simp [Batch.start]

end Spreadsheet.Sheet
