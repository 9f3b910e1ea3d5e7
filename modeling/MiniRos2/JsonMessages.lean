import MiniRos2.JsonRun
import MiniRos2.JsonRoundTrip
/-!
# JsonMessages — what a program builds can be sent

No statement makes an object whose keys are out of order, and only a `double` brings a double in, so the variables of a
program without one are messages.  What `serialize` writes of a message reads back as it is, except where a string or a
key has a backspace, and only a statement with one brings one in (`run_readBack`).
-/
namespace MiniRos2
namespace JsonHeap

open JsonValue (Structural KeysIn all_get? all_put all_reach)

variable {D : Type} {K : List UInt8 → Prop} {P : JsonValue D → Prop} {w w' : World D} {s : Stmt D}
  {e : Option Exn} {p q : Path} {n : Nat}

namespace Stmt

/-- The places that the statement names. -/
def paths : Stmt D → List Path
  | .assign p q => [p, q]
  | .move p q => [p, q]
  | .inner _ p q => [p, q]
  | .literal p _ => [p]
  | .load p _ => [p]
  | .pushBack p q => [p, q]

/-- The values that the statement brings in from outside the variables. -/
def Carries (P : JsonValue D → Prop) : Stmt D → Prop
  | .literal _ x => x.value.All P
  | .load _ v => v.All P
  | _ => True

/-- What the statement brings in: values, and the keys of its places. -/
structure Brings (K : List UInt8 → Prop) (P : JsonValue D → Prop) (s : Stmt D) : Prop where
  values : s.Carries P
  keys : ∀ p ∈ s.paths, KeysIn K p.pos

end Stmt

theorem World.all_value (hP : Structural K P) (hw : w.store.All P) (p : Path) : (w.value p).All P := by
  unfold World.value
  cases h : w.store.get? p.pos with
  | none => exact hP.null
  | some v => exact all_get? hw h

theorem World.all_put (hP : Structural K P) {v : JsonValue D} (hw : w.store.All P) (hv : v.All P) (p : Path) :
    (w.put p v).store.All P := JsonValue.all_put hP hv hw

/-- Where an operand leaves the values right, and so does what follows it. -/
theorem operand_all (hP : Structural K P) {f : World D → Except Fault (World D × Option Exn)}
    (hk : KeysIn K p.pos) (hw : w.store.All P) (h : w.operand p f = .ok (w', e))
    (hf : ∀ w₁ : World D, w₁.store.All P → f w₁ = .ok (w', e) → w'.store.All P) : w'.store.All P := by
  cases hp : (w.store.reach p.pos).2 with
  | some e' =>
    rw [operand_throws hp] at h
    cases h
    exact all_reach hP hk hw
  | none =>
    rw [operand_ok hp] at h
    exact hf _ (all_reach hP hk hw) h

theorem assign_all (hP : Structural K P) (hp : KeysIn K p.pos) (hq : KeysIn K q.pos) (hw : w.store.All P)
    (h : (Stmt.assign p q).eval w = .ok (w', e)) : w'.store.All P := by
  rw [Stmt.eval] at h
  refine operand_all hP hq hw h (fun w₁ hw₁ h => operand_all hP hp hw₁ h (fun w₂ hw₂ h => ?_))
  split at h
  · cases h
    exact hw₂
  · split at h
    · cases h
      exact World.all_put hP hw₂ (World.all_value hP hw₂ q) p
    · cases h

theorem move_all (hP : Structural K P) (hp : KeysIn K p.pos) (hq : KeysIn K q.pos) (hw : w.store.All P)
    (h : (Stmt.move p q).eval w = .ok (w', e)) : w'.store.All P := by
  rw [Stmt.eval] at h
  refine operand_all hP hq hw h (fun w₁ hw₁ h => operand_all hP hp hw₁ h (fun w₂ hw₂ h => ?_))
  have hnull : JsonValue.All P .null := hP.null
  have hleft : (w₂.put q .null).store.All P := World.all_put hP hw₂ hnull q
  split at h
  · cases h
    exact hw₂
  · split at h
    · cases h
      exact World.all_put hP hleft (World.all_value hP hw₂ q) p
    · split at h
      · cases h
        exact hleft
      · cases h

theorem inner_all (hP : Structural K P) {k : Inner} (hp : KeysIn K p.pos) (hq : KeysIn K q.pos) (hw : w.store.All P)
    (h : (Stmt.inner k p q).eval w = .ok (w', e)) : w'.store.All P := by
  rw [Stmt.eval] at h
  refine operand_all hP hq hw h (fun w₁ hw₁ h => ?_)
  split at h
  · cases h
    exact hw₁
  · refine operand_all hP hp hw₁ h (fun w₂ hw₂ h => ?_)
    split at h
    · cases h
      exact World.all_put hP hw₂ (World.all_value hP hw₂ q) p
    · cases h

theorem pushBack_all (hP : Structural K P) (hp : KeysIn K p.pos) (hq : KeysIn K q.pos) (hw : w.store.All P)
    (h : (Stmt.pushBack p q).eval w = .ok (w', e)) : w'.store.All P := by
  rw [Stmt.eval] at h
  refine operand_all hP hp hw h (fun w₁ hw₁ h => operand_all hP hq hw₁ h (fun w₂ hw₂ h => ?_))
  split at h
  · rename_i xs hxs
    cases h
    have hval := World.all_value hP hw₂ p
    rw [hxs] at hval
    have hall : JsonValue.All P (.array (xs ++ [w₂.value q])) := by
      refine ⟨hP.array _, JsonValue.allElems_iff.2 (fun x hx => ?_)⟩
      rcases List.mem_append.1 hx with hx | hx
      · exact JsonValue.allElems_iff.1 hval.2 x hx
      · rw [List.mem_singleton.1 hx]
        exact World.all_value hP hw₂ q
    exact World.all_put hP hw₂ hall p
  · cases h
    exact hw₂

/-- **A statement makes nothing wrong** that it does not bring in. -/
theorem eval_all (hP : Structural K P) (hw : w.store.All P) : ∀ {s : Stmt D}, s.Brings K P →
    s.eval w = .ok (w', e) → w'.store.All P
  | .assign p q, hs, h => assign_all hP (hs.keys p (by simp [Stmt.paths])) (hs.keys q (by simp [Stmt.paths])) hw h
  | .move p q, hs, h => move_all hP (hs.keys p (by simp [Stmt.paths])) (hs.keys q (by simp [Stmt.paths])) hw h
  | .inner _ p q, hs, h => inner_all hP (hs.keys p (by simp [Stmt.paths])) (hs.keys q (by simp [Stmt.paths])) hw h
  | .pushBack p q, hs, h => pushBack_all hP (hs.keys p (by simp [Stmt.paths])) (hs.keys q (by simp [Stmt.paths])) hw h
  | .literal p x, hs, h => by
    rw [Stmt.eval] at h
    refine operand_all hP (hs.keys p (by simp [Stmt.paths])) hw h (fun w₁ hw₁ h => ?_)
    cases h
    exact World.all_put hP hw₁ hs.values p
  | .load p v, hs, h => by
    rw [Stmt.eval] at h
    refine operand_all hP (hs.keys p (by simp [Stmt.paths])) hw h (fun w₁ hw₁ h => ?_)
    cases h
    exact World.all_put hP hw₁ hs.values p

theorem evalAll_all (hP : Structural K P) : ∀ {prog : List (Stmt D)} {w : World D}, w.store.All P →
    (∀ s ∈ prog, s.Brings K P) → evalAll prog w = .ok w' → w'.store.All P
  | [], w, hw, _, h => by cases h; exact hw
  | s :: prog, w, hw, hs, h => by
    unfold evalAll at h
    rw [List.foldlM_cons] at h
    cases he : s.eval w with
    | error f =>
      rw [he] at h
      cases h
    | ok x =>
      rw [he] at h
      exact evalAll_all hP (eval_all hP hw (hs s List.mem_cons_self) he)
        (fun s' hs' => hs s' (List.mem_cons_of_mem _ hs')) h

/-! ## Messages -/

/-- What is asked of every part of a message. -/
def Sendable (v : JsonValue D) : Prop := (∀ d, v ≠ .double d) ∧ ∀ kvs, v = .object kvs → OrdMap.Sorted kvs

theorem structural_sendable : Structural (fun _ => True) (Sendable (D := D)) where
  null := ⟨nofun, nofun⟩
  array _ := ⟨nofun, nofun⟩
  object kvs := ⟨fun h => ⟨h.2 kvs rfl, fun _ _ => trivial⟩, fun h => ⟨nofun, fun _ hk => by cases hk; exact h.1⟩⟩

/-- What is asked of every part of a message without backspaces. -/
def Readable (v : JsonValue D) : Prop := Sendable v ∧ JsonValue.OnStrings (fun s => 8 ∉ s) v

theorem structural_readable : Structural (fun k => 8 ∉ k) (Readable (D := D)) where
  null := ⟨structural_sendable.null, JsonValue.onStrings_of_ne nofun nofun⟩
  array xs := ⟨structural_sendable.array xs, JsonValue.onStrings_of_ne nofun nofun⟩
  object kvs := by
    constructor
    · intro h
      exact ⟨((structural_sendable.object kvs).1 h.1).1, h.2.2 kvs rfl⟩
    · intro h
      exact ⟨(structural_sendable.object kvs).2 ⟨h.1, fun _ _ => trivial⟩, JsonValue.onStrings_object h.2⟩

theorem sendable_message (m : Message D) : m.val.All Sendable := m.doubleFree.and m.ordered

theorem message_of_all {v : JsonValue D} (hv : v.All Sendable) : ∃ m : Message D, m.val = v :=
  ⟨⟨v, hv.imp (fun _ h => h.1), hv.imp (fun _ h => h.2)⟩, rfl⟩

namespace Stmt

/-- No double is assigned, and what is loaded is a message. -/
def Plain : Stmt D → Prop
  | .literal _ (.double _) => False
  | .load _ v => ∃ m : Message D, m.val = v
  | _ => True

/-- No string that the statement assigns or loads, and no key of it, has a backspace. -/
structure NoBackspace (s : Stmt D) : Prop where
  values : s.Carries (JsonValue.OnStrings fun s => 8 ∉ s)
  keys : ∀ p ∈ s.paths, KeysIn (fun k => 8 ∉ k) p.pos

theorem Plain.carries : ∀ {s : Stmt D}, s.Plain → s.Carries Sendable
  | .literal _ x, h => by
    cases x with
    | double d => exact h.elim
    | _ => exact ⟨nofun, nofun⟩
  | .load _ _, ⟨m, hm⟩ => by
    subst hm
    exact sendable_message m
  | .assign _ _, _ => trivial
  | .move _ _, _ => trivial
  | .inner _ _ _, _ => trivial
  | .pushBack _ _, _ => trivial

theorem Carries.and {Q R : JsonValue D → Prop} : ∀ {s : Stmt D}, s.Carries Q → s.Carries R →
    s.Carries (fun v => Q v ∧ R v)
  | .literal _ _, hq, hr => JsonValue.All.and hq hr
  | .load _ _, hq, hr => JsonValue.All.and hq hr
  | .assign _ _, _, _ => trivial
  | .move _ _, _, _ => trivial
  | .inner _ _ _, _, _ => trivial
  | .pushBack _ _, _, _ => trivial

theorem Plain.brings {s : Stmt D} (h : s.Plain) : s.Brings (fun _ => True) Sendable :=
  ⟨h.carries, fun _ _ _ _ => trivial⟩

theorem NoBackspace.brings {s : Stmt D} (h : s.NoBackspace) (hp : s.Plain) : s.Brings (fun k => 8 ∉ k) Readable :=
  ⟨hp.carries.and h.values, h.keys⟩

end Stmt

theorem start_all (hP : Structural K P) (n : Nat) : (World.start n : World D).store.All P := by
  refine ⟨hP.array _, JsonValue.allElems_iff.2 (fun v hv => ?_)⟩
  rw [(List.mem_replicate.1 hv).2]
  exact hP.null

theorem rooted_store {h : Memory D} {t : Held D} (hh : Holding n h t w) :
    ∃ vs, w.store = .array vs ∧ vs.length = n := by
  obtain ⟨es, rfl, hlen⟩ := hh.rooted
  exact ⟨elems es, hh.store.symm, (length_elems es).trans hlen⟩

/-- **Every variable of a program without doubles is a message**: what `serialize` writes of the value in memory reads
back as that value exactly when no string and no key of it has a backspace, and none has if no statement has. -/
theorem run_readBack [DoubleText D] (n : Nat) (prog : List (Stmt D)) (hs : ∀ s ∈ prog, s.Scoped n)
    (hplain : ∀ s ∈ prog, s.Plain)
    (h : Memory D) (hrun : run prog (start n) = .ok h) :
    ∃ vs, readStore h = .ok (.array vs) ∧ vs.length = n ∧
      (∀ v ∈ vs, deserialize v.serialize = .ok v ↔ v.NoBackspace) ∧
      ((∀ s ∈ prog, s.NoBackspace) → ∀ v ∈ vs, v.NoBackspace) := by
  have hmatch := run_matches (start_holding n) hs
  cases he : evalAll prog (World.start n) with
  | error f =>
    rw [he] at hmatch
    rw [hmatch] at hrun
    cases hrun
  | ok w =>
    rw [he] at hmatch
    obtain ⟨h₁, t, hrun₁, hh⟩ := hmatch
    rw [hrun] at hrun₁
    cases hrun₁
    obtain ⟨_, hread, -⟩ := hh.observe
    obtain ⟨vs, hvs, hlen⟩ := rooted_store hh
    have hall := evalAll_all structural_sendable (start_all structural_sendable n)
      (fun s hs => (hplain s hs).brings) he
    rw [hvs] at hread hall
    refine ⟨vs, hread, hlen, fun v hv => ?_, fun hno v hv => ?_⟩
    · obtain ⟨m, rfl⟩ := message_of_all (JsonValue.allElems_iff.1 hall.2 v hv)
      exact ⟨fun hd => (text_of_deserialize hd).noBackspace (eight_not_mem_message m), deserialize_serialize m⟩
    · have hread := evalAll_all structural_readable (start_all structural_readable n)
        (fun s hs => (hno s hs).brings (hplain s hs)) he
      rw [hvs] at hread
      exact (JsonValue.allElems_iff.1 hread.2 v hv).imp (fun _ hw => hw.2) v

/-- `v["a"] = 7; w = v;` -/
theorem run_readBack_copy : ∃ (h : Memory (List UInt8)) (vs : List (JsonValue (List UInt8))),
    run [.literal ⟨0, [.key [97]]⟩ (.int 7), .assign ⟨1, []⟩ ⟨0, []⟩] (start 2) = .ok h ∧
    readStore h = .ok (.array vs) ∧ vs.length = 2 ∧ ∀ v ∈ vs, deserialize v.serialize = .ok v := by
  obtain ⟨h, hrun⟩ : ∃ h : Memory (List UInt8),
    run [.literal ⟨0, [.key [97]]⟩ (.int 7), .assign ⟨1, []⟩ ⟨0, []⟩] (start 2) = .ok h := ⟨_, rfl⟩
  obtain ⟨vs, hread, hlen, hiff, hno⟩ := run_readBack 2 _ (by simp [Stmt.Scoped]) (by simp [Stmt.Plain]) h hrun
  refine ⟨h, vs, hrun, hread, hlen, fun v hv => (hiff v hv).2 (hno (fun s hs => ?_) v hv)⟩
  simp only [List.mem_cons, List.not_mem_nil, or_false] at hs
  rcases hs with rfl | rfl
  · exact ⟨JsonValue.onStrings_of_ne (fun _ h => by cases h) (fun _ h => by cases h),
      by simp [Stmt.paths, KeysIn, Path.pos]⟩
  · exact ⟨trivial, by simp [Stmt.paths, KeysIn, Path.pos]⟩

end JsonHeap
end MiniRos2
