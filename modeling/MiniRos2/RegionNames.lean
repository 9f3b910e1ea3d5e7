import MiniRos2.ShmManager
/-!
# RegionNames — the names of regions and events

A name is put together with underscores from the domain, the name space, the topic and the event, and an underscore may
stand inside the last three as well.  Two names are the same exactly when the domains are and the parts between the
underscores are, one after another (`regionName_ne_iff`): what keeps two channels apart is not where the name space
ends.
-/
namespace MiniRos2

/-- What a name is made of: a node's domain and name space, a topic and an event. -/
structure ChannelName where
  domain_id : Int32
  name_space : List UInt8
  topic : List UInt8
  event : List UInt8

namespace ChannelName

/-- The prefix that the constructor of `Node` makes. -/
def shm_prefix_ (c : ChannelName) : List UInt8 :=
  let name := if c.name_space = [] then c.name_space else c.name_space ++ utf8 "_"
  utf8 "/" ++ printInt c.domain_id.toInt ++ utf8 "_" ++ name

/-- `createPublisher` and `createSubscriber`. -/
def full_topic (c : ChannelName) : List UInt8 := c.shm_prefix_ ++ c.topic

/-- **The name of the region and of the entry in the event table.** -/
def regionName (c : ChannelName) : List UInt8 := fullName c.full_topic c.event

/-- Topic and event are given, and no part has a NUL. -/
structure Valid (c : ChannelName) : Prop where
  topic : c.topic ≠ []
  event : c.event ≠ []
  noNul : 0 ∉ c.name_space ++ c.topic ++ c.event

/-- What stands between underscores in the name space, if there is one, the topic and the event. -/
def parts (c : ChannelName) : List (List UInt8) :=
  (if c.name_space = [] then [] else c.name_space.splitOn 95) ++ c.topic.splitOn 95 ++ c.event.splitOn 95

end ChannelName

/-! ## Numerals -/

theorem digits_injective {m n : Nat} (h : Decimal.digits m = Decimal.digits n) : m = n := by
  have hvalue := congrArg Decimal.value h
  rwa [Decimal.value_digits, Decimal.value_digits] at hvalue

theorem isDigit_or_minus_of_mem_printInt {n : Int} {b : UInt8} (hb : b ∈ printInt n) :
    Decimal.isDigit b = true ∨ b = 45 := by
  unfold printInt at hb
  split at hb
  · rcases List.mem_cons.1 hb with rfl | hb
    · exact .inr rfl
    · exact .inl (Decimal.isDigit_of_mem_digits _ b hb)
  · exact .inl (Decimal.isDigit_of_mem_digits _ b hb)

theorem underscore_notMem_printInt (n : Int) : 95 ∉ printInt n := by
  intro hmem
  rcases isDigit_or_minus_of_mem_printInt hmem with h | h <;> cases h

theorem minus_notMem_digits (n : Nat) : 45 ∉ Decimal.digits n := by
  intro hmem
  cases Decimal.isDigit_of_mem_digits n 45 hmem

theorem printInt_injective {m n : Int} (h : printInt m = printInt n) : m = n := by
  unfold printInt at h
  split at h <;> split at h
  · have habs := digits_injective (List.cons.inj h).2
    omega
  · exact absurd (h ▸ List.mem_cons_self) (minus_notMem_digits n.natAbs)
  · exact absurd (h ▸ List.mem_cons_self) (minus_notMem_digits m.natAbs)
  · have habs := digits_injective h
    omega

/-! ## Names -/

theorem splitOn_injective {l l' : List UInt8} (h : l.splitOn 95 = l'.splitOn 95) : l = l' := by
  calc l = [95].intercalate (l.splitOn 95) := (List.intercalate_splitOn 95).symm
    _ = [95].intercalate (l'.splitOn 95) := by rw [h]
    _ = l' := List.intercalate_splitOn 95

theorem regionName_of_nil {c : ChannelName} (h : c.name_space = []) :
    c.regionName = (47 :: printInt c.domain_id.toInt) ++ 95 :: (c.topic ++ 95 :: c.event) := by
  have hslash : utf8 "/" = [47] := rfl
  have hunderscore : utf8 "_" = [95] := rfl
  simp [ChannelName.regionName, fullName, ChannelName.full_topic, ChannelName.shm_prefix_, h, hslash, hunderscore]

theorem regionName_of_ne_nil {c : ChannelName} (h : c.name_space ≠ []) :
    c.regionName = (47 :: printInt c.domain_id.toInt) ++ 95 :: (c.name_space ++ 95 :: (c.topic ++ 95 :: c.event)) := by
  have hslash : utf8 "/" = [47] := rfl
  have hunderscore : utf8 "_" = [95] := rfl
  simp [ChannelName.regionName, fullName, ChannelName.full_topic, ChannelName.shm_prefix_, h, hslash, hunderscore]

/-- **A name falls into the domain and the parts.** -/
theorem splitOn_regionName (c : ChannelName) :
    c.regionName.splitOn 95 = (47 :: printInt c.domain_id.toInt) :: c.parts := by
  have hdomain : 95 ∉ 47 :: printInt c.domain_id.toInt := by simp [underscore_notMem_printInt]
  by_cases hns : c.name_space = []
  · rw [regionName_of_nil hns, List.splitOn_append_cons_self_of_not_mem hdomain, List.splitOn_append_cons_self]
    simp [ChannelName.parts, hns]
  · rw [regionName_of_ne_nil hns, List.splitOn_append_cons_self_of_not_mem hdomain, List.splitOn_append_cons_self,
      List.splitOn_append_cons_self]
    simp [ChannelName.parts, hns]

theorem regionName_eq_iff {c c' : ChannelName} :
    c.regionName = c'.regionName ↔ c.domain_id = c'.domain_id ∧ c.parts = c'.parts := by
  constructor
  · intro h
    have hsplit := congrArg (List.splitOn 95) h
    rw [splitOn_regionName, splitOn_regionName] at hsplit
    obtain ⟨hdomain, hparts⟩ := List.cons.inj hsplit
    exact ⟨Int32.toInt_inj.1 (printInt_injective (List.cons.inj hdomain).2), hparts⟩
  · rintro ⟨hdomain, hparts⟩
    apply splitOn_injective
    rw [splitOn_regionName, splitOn_regionName, hdomain, hparts]

/-- **When two channels have names of their own**: their domains differ, or what stands between the underscores does. -/
theorem regionName_ne_iff (c c' : ChannelName) :
    c.regionName ≠ c'.regionName ↔ c.domain_id ≠ c'.domain_id ∨ c.parts ≠ c'.parts := by
  rw [Ne, regionName_eq_iff, not_and_or]

/-- No underscore stands inside a name space, a topic or an event. -/
def ChannelName.Plain (c : ChannelName) : Prop := 95 ∉ c.name_space ∧ 95 ∉ c.topic ∧ 95 ∉ c.event

theorem ChannelName.Plain.parts {c : ChannelName} (h : c.Plain) :
    c.parts = (if c.name_space = [] then [] else [c.name_space]) ++ [c.topic] ++ [c.event] := by
  unfold ChannelName.parts
  rw [List.splitOn_eq_singleton h.1, List.splitOn_eq_singleton h.2.1, List.splitOn_eq_singleton h.2.2]

/-- **Without underscores inside their parts no two channels share a name.** -/
theorem eq_of_regionName_eq {c c' : ChannelName} (h : c.Plain) (h' : c'.Plain) (heq : c.regionName = c'.regionName) :
    c = c' := by
  obtain ⟨hdomain, hparts⟩ := regionName_eq_iff.1 heq
  rw [h.parts, h'.parts] at hparts
  obtain ⟨d, ns, topic, event⟩ := c
  obtain ⟨d', ns', topic', event'⟩ := c'
  obtain rfl : d = d' := hdomain
  by_cases hns : ns = [] <;> by_cases hns' : ns' = [] <;> simp [hns, hns'] at hparts
  · obtain ⟨rfl, rfl⟩ := hparts
    rw [hns, hns']
  · obtain ⟨rfl, rfl, rfl⟩ := hparts
    rfl

/-- `/0_a_b_c` is topic `b` of the name space `a`, and topic `a_b` of none. -/
theorem regionName_not_injective :
    ¬ ∀ c c' : ChannelName, c.Valid → c'.Valid → c ≠ c' → c.regionName ≠ c'.regionName := by
  intro h
  let inside : ChannelName := ⟨0, [97], [98], [99]⟩
  let outside : ChannelName := ⟨0, [], [97, 95, 98], [99]⟩
  have hinside : inside.Valid := ⟨by simp [inside], by simp [inside], by decide⟩
  have houtside : outside.Valid := ⟨by simp [outside], by simp [outside], by decide⟩
  have hne : inside ≠ outside := by
    intro heq
    cases congrArg ChannelName.name_space heq
  refine h inside outside hinside houtside hne ?_
  rw [regionName_of_ne_nil (by simp [inside]), regionName_of_nil rfl]
  rfl

end MiniRos2
