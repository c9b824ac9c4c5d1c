import Mathlib.Data.List.Chain
import Mathlib.Data.List.Nodup
import Spreadsheet.Proofs.Graph.Paths

/-! The way that the search for a cycle gives. Every trail of the search goes along edges that are there,
and a cell is followed only once, so that no cell comes twice on it. -/
namespace Spreadsheet.Graph

/-- A way from a cell back to it that begins with an edge to one of `targets` and goes on along edges that
are there. But for its two ends no cell comes twice. -/
structure Circuit (g : Graph) (a : Address) (targets : AddressSet) (path : List Address) : Prop where
  starts : path.head? = some a
  enters : ∃ t ∈ targets, path[1]? = some t
  follows : path.tail.IsChain g.Reads
  ends : path.getLast? = some a
  simple : path.tail.Nodup

/-- What holds of a trail of a search while the edges that are left can still be followed. The cells on the
way have been followed, and the goal is none of them. -/
structure Trail.Open (g : Graph) (goal : Address) (targets : AddressSet)
    (edges : AddressMap AddressSet) (t : Trail) : Prop where
  starts : ∃ root ∈ targets, t.path.head? = some root
  follows : t.path.IsChain g.Reads
  avoids : goal ∉ t.path
  simple : t.before.Nodup
  followed : ∀ b ∈ t.before, b ∉ edges

variable {g : Graph} {goal : Address} {targets : AddressSet} {edges : AddressMap AddressSet}

theorem Trail.path_extend (t : Trail) (next : Address) : (t.extend next).path = t.path ++ [next] := by
  unfold path extend
  rw [List.reverse_cons (a := next)]

theorem Trail.getLast?_path (t : Trail) : t.path.getLast? = some t.cell := by
  unfold path
  rw [List.getLast?_reverse, List.head?_cons]

namespace Trail.Open

variable {t : Trail}

theorem root {root : Address} (hroot : root ∈ targets) (hgoal : root ≠ goal) :
    Open g goal targets edges ⟨root, []⟩ where
  starts := ⟨root, hroot, rfl⟩
  follows := .singleton root
  avoids hmem := hgoal (List.mem_singleton.mp hmem).symm
  simple := .nil
  followed _ hmem := absurd hmem List.not_mem_nil

theorem erase (h : t.Open g goal targets edges) (a : Address) :
    t.Open g goal targets (edges.erase a) :=
  { h with followed := fun b hb hmem => h.followed b hb (Std.ExtTreeMap.mem_of_mem_erase hmem) }

/-- A trail is extended when its last cell is followed. -/
theorem extend (h : t.Open g goal targets edges) (ht : t.cell ∈ edges) {next : Address}
    (hnext : g.Reads t.cell next) (hgoal : next ≠ goal) :
    (t.extend next).Open g goal targets (edges.erase t.cell) where
  starts := by
    obtain ⟨root, hroot, hfirst⟩ := h.starts
    exact ⟨root, hroot, by rw [path_extend, List.head?_append, hfirst, Option.some_or]⟩
  follows := by
    rw [path_extend, List.isChain_append, getLast?_path]
    simpa using ⟨h.follows, hnext⟩
  avoids := by
    rw [path_extend, List.mem_append, List.mem_singleton, not_or]
    exact ⟨h.avoids, Ne.symm hgoal⟩
  simple := List.nodup_cons.mpr ⟨fun hmem => h.followed _ hmem ht, h.simple⟩
  followed b hb := by
    rcases List.mem_cons.mp hb with rfl | hb
    · simp
    · exact (h.erase _).followed b hb

/-- On a trail whose last cell can still be followed no cell comes twice. -/
theorem nodup_path (h : t.Open g goal targets edges) (ht : t.cell ∈ edges) : t.path.Nodup :=
  List.nodup_reverse.mpr (List.nodup_cons.mpr ⟨fun hmem => h.followed _ hmem ht, h.simple⟩)

end Trail.Open

/-- A search keeps to open trails, and what it finds can be followed to the goal. -/
theorem open_of_seek {front back : List Trail} {roots : List Address} {t : Trail}
    (hedges : ∀ a b, Steps edges a b → g.Reads a b)
    (hfront : ∀ t ∈ front, t.Open g goal targets edges)
    (hback : ∀ t ∈ back, t.Open g goal targets edges)
    (hroots : ∀ root ∈ roots, root ∈ targets ∧ root ≠ goal)
    (h : seek goal edges front back roots = some t) :
    g.Reads t.cell goal ∧ ∃ left, t.cell ∈ left ∧ t.Open g goal targets left := by
  induction edges, front, back, roots using seek.induct goal with
  | case1 edges trail front back roots hmem next hgoal =>
    rw [seek, dif_pos hmem] at h
    simp only [next] at hgoal
    simp only [hgoal, ↓reduceIte, Option.some.injEq] at h
    subst h
    exact ⟨hedges _ _ ((steps_iff_of_mem hmem).mpr hgoal), edges, hmem, hfront _ List.mem_cons_self⟩
  | case2 edges trail front back roots hmem next hgoal ih =>
    rw [seek, dif_pos hmem] at h
    simp only [next] at hgoal ih
    simp only [hgoal, ↓reduceIte] at h
    refine ih (fun a b hab => hedges a b (steps_erase.mp hab).2)
      (fun t ht => (hfront t (List.mem_cons_of_mem _ ht)).erase _) (fun t ht => ?_) hroots h
    rcases mem_foldl_extend.mp ht with ht | ⟨c, hc, rfl⟩
    · exact (hback t ht).erase _
    · exact (hfront trail List.mem_cons_self).extend hmem
        (hedges _ _ ((steps_iff_of_mem hmem).mpr hc)) fun heq => hgoal (heq ▸ hc)
  | case3 edges trail front back roots hmem ih =>
    rw [seek, dif_neg hmem] at h
    exact ih hedges (fun t ht => hfront t (List.mem_cons_of_mem _ ht)) hback hroots h
  | case4 edges trail back roots ih =>
    rw [seek] at h
    exact ih hedges (fun t ht => hback t (List.mem_reverse.mp ht)) (by simp) hroots h
  | case5 edges root roots ih =>
    rw [seek] at h
    obtain ⟨hroot, hgoal⟩ := hroots root List.mem_cons_self
    refine ih hedges (fun t ht => ?_) (by simp)
      (fun root hmem => hroots root (List.mem_cons_of_mem _ hmem)) h
    rw [List.mem_singleton.mp ht]
    exact .root hroot hgoal
  | case6 edges =>
    rw [seek] at h
    contradiction

/-- The search for a cycle gives a way that new edges would close to a cycle. -/
theorem circuit_of_cyclePath? {a : Address} {path : List Address}
    (h : g.cyclePath? a targets = some path) : g.Circuit a targets path := by
  unfold cyclePath? at h
  split at h
  · rename_i ha
    cases h
    exact ⟨rfl, ⟨a, ha, rfl⟩, .singleton a, rfl, List.nodup_singleton a⟩
  · rename_i ha
    obtain ⟨t, ht, rfl⟩ := Option.map_eq_some_iff.mp h
    have hroots : ∀ root ∈ targets.toList, root ∈ targets ∧ root ≠ a := by
      intro root hroot
      rw [Std.ExtTreeSet.mem_toList] at hroot
      exact ⟨hroot, fun heq => ha (heq ▸ hroot)⟩
    obtain ⟨hgoal, left, hleft, hopen⟩ :=
      open_of_seek (fun _ _ hread => hread) (by simp) (by simp) hroots ht
    obtain ⟨root, hroot, hfirst⟩ := hopen.starts
    refine ⟨rfl, ⟨root, hroot, ?_⟩, ?_, ?_, ?_⟩
    · rw [List.getElem?_cons_succ, ← List.head?_eq_getElem?, List.head?_append, hfirst,
        Option.some_or]
    · rw [List.tail_cons, List.isChain_append, Trail.getLast?_path]
      simpa using ⟨hopen.follows, hgoal⟩
    · rw [← List.cons_append, List.getLast?_concat]
    · rw [List.tail_cons, List.nodup_append']
      exact ⟨hopen.nodup_path hleft, List.nodup_singleton a,
        List.disjoint_singleton.mpr hopen.avoids⟩

end Spreadsheet.Graph
