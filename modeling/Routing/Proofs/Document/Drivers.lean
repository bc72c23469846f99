import Routing.Proofs.Document.Built
import Routing.Proofs.Stage.Pool
/-!
# What drivers make

The kind of the statement in which a driver stands tells which stage it makes. Only in a source it
makes one that is a source and refuses to be cloned, and no stage is made running.
-/

namespace Routing

namespace Builtin

/-- The stage is what a driver makes in a statement of this kind. -/
def OfDriver (kind : Kind) : Builtin → Prop
  | internal s => kind = .source ∧ s.running = false
  | filter _ => kind = .filter
  | keyValue _ => kind = .parser
  | assign _ => kind = .rewrite
  | collect c => kind = .destination ∧ c.isOpen = false
  | _ => False

variable {kind : Kind} {spec : DriverSpec} {templates : Templates} {shared shared' : Shared}
  {s : Builtin}

theorem ofDriver_ofSpec {r : Builtin ⊕ (String × Nat)} (h : ofSpec kind spec templates = .ok r) :
    match r with
    | .inl s => s.OfDriver kind
    | .inr _ => kind = .destination := by
  have hkind : ∀ {d : Driver}, Driver.find? kind spec.driver = some d → kind = d.kind := by
    intro d hd
    have hfound := List.find?_some hd
    simp only [Bool.and_eq_true, beq_iff_eq] at hfound
    exact hfound.2.symm
  -- The options are only read, whatever they are.
  unfold ofSpec at h
  split at h
  · cases h
  · next hd =>
    cases h
    exact ⟨hkind hd, rfl⟩
  · next hd =>
    obtain ⟨field, -, h⟩ := bind_eq_ok h
    obtain ⟨value, -, h⟩ := bind_eq_ok h
    obtain ⟨invert, -, h⟩ := bind_eq_ok h
    cases h
    exact hkind hd
  · next hd =>
    obtain ⟨field, -, h⟩ := bind_eq_ok h
    obtain ⟨separator, -, h⟩ := bind_eq_ok h
    obtain ⟨lead, -, h⟩ := bind_eq_ok h
    cases h
    exact hkind hd
  · next hd =>
    obtain ⟨field, -, h⟩ := bind_eq_ok h
    obtain ⟨value, -, h⟩ := bind_eq_ok h
    cases h
    exact hkind hd
  · next hd =>
    obtain ⟨name, -, h⟩ := bind_eq_ok h
    obtain ⟨capacity, -, h⟩ := bind_eq_ok h
    cases h
    exact hkind hd

theorem ofDriver_create (h : create kind spec templates shared = (.ok s, shared')) :
    s.OfDriver kind := by
  unfold create at h
  split at h
  · cases h
  · next hspec =>
    cases h
    exact ofDriver_ofSpec hspec
  · next hspec =>
    cases h
    exact ⟨ofDriver_ofSpec hspec, rfl⟩

end Builtin

namespace Building

variable {d : Document} {p : Plan Builtin Shared} {specs : List (Kind × DriverSpec)}
  {pool pool' : Pool Builtin Shared}

/-- The stage of each driver is in the pool, in order. -/
theorem Fills.stage {spec : Kind × DriverSpec} {i : Nat} (h : Fills p specs pool pool')
    (hp : p.factory = Builtin.create) (hi : specs[i]? = some spec) :
    pool'.isInlined (pool.instances.size + i) = false ∧
      ∃ s, pool'.stage? (pool.instances.size + i) = some s ∧ s.OfDriver spec.1 := by
  obtain ⟨new, hnew, hmade⟩ := h
  have hget : pool'.instances[pool.instances.size + i]? = new[i]? := by
    rw [← Array.getElem?_toList, hnew, List.getElem?_append_right (by simp)]
    simp
  obtain ⟨made, hmem, hinlined, shared, shared', hcreate⟩ :
      ∃ made, new[i]? = some made ∧ Makes p spec made := by
    obtain ⟨hlt, rfl⟩ := List.getElem?_eq_some_iff.1 hi
    have hlt' : i < new.length := hmade.length_eq ▸ hlt
    exact ⟨new[i], List.getElem?_eq_getElem hlt', hmade.get hlt hlt'⟩
  rw [hp] at hcreate
  refine ⟨?_, made.stage, ?_, Builtin.ofDriver_create hcreate⟩
  · simp [Pool.isInlined, hget, hmem, hinlined]
  · simp [Pool.stage?, hget, hmem]

/-- A pool that was empty has no other stages. -/
theorem Fills.ofDriver {h : Handle} {s : Builtin} (hf : Fills p specs pool pool')
    (hp : p.factory = Builtin.create) (hpool : pool.instances.size = 0)
    (hs : pool'.stage? h = some s) : ∃ kind, s.OfDriver kind := by
  have hlt : h < specs.length := by
    have hlt := Pool.lt_of_stage hs
    rwa [hf.size, hpool, Nat.zero_add] at hlt
  obtain ⟨-, s', hs', hmade⟩ := hf.stage hp (List.getElem?_eq_getElem hlt)
  rw [hpool, Nat.zero_add, hs] at hs'
  cases hs'
  exact ⟨_, hmade⟩

end Building

/-- Two rules that share a source and a destination, the second by the flag for all sources, with
another source, a filter and a rewrite in place of names. -/
def Document.sample : Document where
  sources := [{ name := ⟨"in", ⟨20, 24⟩⟩, drivers := [{ driver := "internal" }] }]
  destinations := [{ name := ⟨"out", ⟨80, 85⟩⟩, drivers := [{ driver := "collect" }] }]
  rules := [
    .mk [] [.named .source ⟨"in", ⟨130, 134⟩⟩,
      .junction [
        .mk [] [.inline ⟨.filter, ⟨160, 168⟩⟩
          [{ driver := "match", options := [("value", .string "up")] }]],
        .mk ["final"] [.inline ⟨.rewrite, ⟨180, 188⟩⟩
          [{ driver := "set", options := [("field", .string "seen"), ("value", .string "yes")] }]]],
      .named .destination ⟨"out", ⟨200, 205⟩⟩],
    .mk ["catch-all"] [.inline ⟨.source, ⟨230, 238⟩⟩ [{ driver := "internal" }],
      .named .destination ⟨"out", ⟨260, 265⟩⟩]]

end Routing
