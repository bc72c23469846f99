import Routing.Proofs.Compile.Spared
import Routing.Proofs.Document.Drivers
/-!
# What documents provide

In what is built from a document each target has stages of its own, sources are made of sources, and
all other stages can be cloned.
-/

namespace Routing

/-! ### Drivers -/

namespace Builtin.OfDriver

variable {kind : Kind} {s : Builtin}

theorem isSource (h : s.OfDriver kind) :
    (Stage.capabilities s).isSource = true ↔ kind = .source := by
  cases s with
  | internal s => exact ⟨fun _ => h.1, fun _ => rfl⟩
  | collect c => simp [Stage.capabilities, Builtin.capabilities, Capabilities.none, h.1]
  | filter m =>
    obtain rfl : kind = .filter := h
    simp [Stage.capabilities, Builtin.capabilities, Capabilities.none]
  | keyValue kv =>
    obtain rfl : kind = .parser := h
    simp [Stage.capabilities, Builtin.capabilities]
  | assign a =>
    obtain rfl : kind = .rewrite := h
    simp [Stage.capabilities, Builtin.capabilities]
  | scripted | plain | multiplexer | passThrough => exact h.elim

theorem clone (h : s.OfDriver kind) (hk : kind ≠ .source) (shared : Shared) :
    ∃ copy shared', Stage.clone s shared = (some copy, shared') ∧
      (Stage.capabilities copy).isSource = false := by
  cases s with
  | internal s => exact absurd h.1 hk
  | collect | filter | keyValue | assign => exact ⟨_, _, rfl, rfl⟩
  | scripted | plain | multiplexer | passThrough => exact h.elim

end Builtin.OfDriver

/-! ### Bodies -/

theorem Catalog.kind_target {c : Catalog} {key : TargetKey} {t : Statement}
    (h : (key, t) ∈ c.targets) : key.kind = t.kind := by
  rcases List.mem_append.1 h with h | h
  · obtain ⟨e, -, heq⟩ := List.mem_map.1 h
    cases heq
    rfl
  · obtain ⟨s, -, h⟩ := List.mem_flatMap.1 h
    obtain ⟨q, -, heq⟩ := List.mem_filterMap.1 h
    split at heq
    · cases heq
      rfl
    · cases heq

namespace Stocks

variable {targets : List (TargetKey × Statement)} {specs : List (Kind × DriverSpec)} {n : Nat}
  {e e' : TargetKey × Statement} {h : Handle}

/-- The stages of a body are made from drivers, in statements of its kind. -/
theorem getElem? (hs : Stocks targets specs n) (he : e ∈ targets) (hh : h ∈ e.2.handles) :
    n ≤ h ∧ ∃ spec, specs[h - n]? = some spec ∧ spec.1 = e.2.kind := by
  have hmem : (e.2.kind, h) ∈ Statement.stock targets :=
    List.mem_flatMap.2 ⟨e, he, List.mem_map_of_mem hh⟩
  rw [hs.stock, List.mk_mem_zipIdx_iff_le_and_getElem?_sub, List.getElem?_map,
    Option.map_eq_some_iff] at hmem
  exact hmem

theorem nodup_flatMap (hs : Stocks targets specs n) :
    (targets.flatMap fun e => e.2.handles).Nodup := by
  have hsnd := congrArg (List.map Prod.snd) hs.stock
  rw [Statement.stock, List.map_flatMap, List.zipIdx_map_snd] at hsnd
  simp only [List.map_map, Function.comp_def, List.map_id'] at hsnd
  rw [hsnd]
  exact List.nodup_range' 1

theorem nodup (hs : Stocks targets specs n) (he : e ∈ targets) : e.2.handles.Nodup :=
  (List.nodup_flatMap.1 hs.nodup_flatMap).1 e he

/-- No stage is in two bodies. -/
theorem apart (hs : Stocks targets specs n) (he : e ∈ targets) (he' : e' ∈ targets)
    (hh : h ∈ e.2.handles) (hh' : h ∈ e'.2.handles) : e = e' := by
  by_contra hne
  have hsymm : Std.Symm (Function.onFun List.Disjoint fun e : TargetKey × Statement => e.2.handles) :=
    ⟨fun _ _ h => h.symm⟩
  exact (List.nodup_flatMap.1 hs.nodup_flatMap).2.forall he he' hne hh hh'

end Stocks

namespace Document.Yields

variable {d : Document} {p : Building.Plan Builtin Shared} {pool : Pool Builtin Shared}
  {a : Deployment Builtin Shared} {key : TargetKey} {t : Statement} {h : Handle}

/-- The stages of a target sit nowhere, and they are what drivers make in statements of its kind. -/
theorem ofDriver (hy : d.Yields p pool a) (hp : p.factory = Builtin.create)
    (ht : (key, t) ∈ a.catalog.targets) (hh : h ∈ t.handles) : a.pool.isInlined h = false ∧
      ∃ s, a.pool.stage? h = some s ∧ s.OfDriver key.kind := by
  obtain ⟨hle, spec, hspec, hkind⟩ := (d.stocks_made p _).getElem? (hy.mem_bodies ht) hh
  have hstage := hy.fills.stage hp hspec
  rw [Nat.add_sub_cancel' hle, hkind] at hstage
  rw [Catalog.kind_target ht]
  exact hstage

theorem provided (hy : d.Yields p pool a) (hp : p.factory = Builtin.create) :
    a.catalog.Provided a.pool where
  body ht := (d.stocks_made p _).body _ (hy.mem_bodies ht)
  fresh ht := (Catalog.each_target (fun _ => hy.raw) ht).self.1
  nodup ht := (d.stocks_made p _).nodup (hy.mem_bodies ht)
  apart ht ht' hh hh' :=
    congrArg Prod.fst ((d.stocks_made p _).apart (hy.mem_bodies ht) (hy.mem_bodies ht') hh hh')
  stage ht hh := by
    obtain ⟨-, s, hs, hmade⟩ := hy.ofDriver hp ht hh
    exact ⟨s, hs, hmade.isSource, hmade.clone⟩

/-- At first all sources are spared. -/
theorem spared (hy : d.Yields p pool a) (hp : p.factory = Builtin.create) :
    Compile.Spared a.catalog a.pool none [] a.build where
  pool := ⟨Nat.le_refl _, fun _ => rfl, id⟩
  spared ht _ _ _ hh := (hy.ofDriver hp ht hh).1
  rest hh := by cases hh

end Document.Yields

end Routing
