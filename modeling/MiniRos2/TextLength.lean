import MiniRos2.RegistrySection
/-!
# TextLength — a table that grows has a longer text

A table's text is its counts, its entries and a frame of fixed length around them (`length_nodesText`,
`length_topicsText`).  So a table with at least the entries of another, and counts that are at least as large, has a
text that is at least as long.
-/
namespace MiniRos2

theorem Decimal.length_digits_mono {m n : Nat} (h : m ≤ n) :
    (Decimal.digits m).length ≤ (Decimal.digits n).length := by
  have hpos : 0 < (Decimal.digits n).length := List.length_pos_of_ne_nil (Decimal.digits_ne_nil n)
  by_cases hm : m = 0
  · rw [hm]
    exact hpos
  · have hlen : ∀ k, k ≠ 0 → (Decimal.digits k).length = (Nat.digits 10 k).length := fun k hk => by
      unfold Decimal.digits
      rw [if_neg hk, List.length_map, List.length_reverse]
    rw [hlen m hm, hlen n (by omega)]
    exact Nat.le_length_digits_le 10 m n h

theorem length_printInt_mono {m n : Int} (hm : 0 ≤ m) (h : m ≤ n) : (printInt m).length ≤ (printInt n).length := by
  unfold printInt
  rw [if_neg (by omega), if_neg (by omega)]
  exact Decimal.length_digits_mono (by omega)

variable {D : Type} [DoubleText D]

open JsonValue (serializeElems serializeMembers escapeString)

theorem serializeElems_append : ∀ (xs ys : List (JsonValue D)) (i : Nat),
    serializeElems i (xs ++ ys) = serializeElems i xs ++ serializeElems (i + xs.length) ys
  | [], _, _ => rfl
  | x :: xs, ys, i => by
    rw [List.cons_append, serializeElems, serializeElems_append xs ys (i + 1), serializeElems, List.length_cons,
      show i + 1 + xs.length = i + (xs.length + 1) by omega]
    simp only [List.append_assoc]

/-- **More entries, a longer text.** -/
theorem length_elems_mono {f g : Nat → JsonValue D} {m n : Nat} (h : m ≤ n) (hfg : ∀ i, i < m → f i = g i) :
    (serializeElems 0 ((List.range m).map f)).length ≤ (serializeElems 0 ((List.range n).map g)).length := by
  obtain ⟨k, rfl⟩ := Nat.exists_eq_add_of_le h
  have hfront : (List.range m).map f = (List.range m).map g :=
    List.map_congr_left (fun i hi => hfg i (List.mem_range.1 hi))
  rw [List.range_add, List.map_append, serializeElems_append, ← hfront, List.length_append]
  exact Nat.le_add_right _ _

omit [DoubleText D] in
theorem ofList_nodesFields (n : NodesInfo) : OrdMap.ofList (nodesFields n) =
    [(utf8 "alive_node_count", (.int n.alive_node_count : JsonValue D)), (utf8 "node_count", .int n.nodes_count),
      (utf8 "nodes", .array ((List.range n.count).map (fun i => nodeJson (n.nodes i))))] := by
  have h₁ : utf8 "alive_node_count" < utf8 "node_count" := by decide +kernel
  have h₂ : ¬ utf8 "nodes" < utf8 "alive_node_count" := by decide +kernel
  have h₃ : utf8 "nodes" ≠ utf8 "alive_node_count" := by decide +kernel
  have h₄ : ¬ utf8 "nodes" < utf8 "node_count" := by decide +kernel
  have h₅ : utf8 "nodes" ≠ utf8 "node_count" := by decide +kernel
  simp only [OrdMap.ofList, nodesFields, List.foldl_cons, List.foldl_nil, OrdMap.insert, if_pos h₁, if_neg h₂,
    if_neg h₃, if_neg h₄, if_neg h₅]

omit [DoubleText D] in
theorem ofList_topicsFields (t : TopicsInfo) : OrdMap.ofList (topicsFields t) =
    [(utf8 "topic_count", (.int t.topics_count : JsonValue D)),
      (utf8 "topics", .array ((List.range t.count).map (fun i => topicJson (t.topics i))))] := by
  have h₁ : ¬ utf8 "topics" < utf8 "topic_count" := by decide +kernel
  have h₂ : utf8 "topics" ≠ utf8 "topic_count" := by decide +kernel
  simp only [OrdMap.ofList, topicsFields, List.foldl_cons, List.foldl_nil, OrdMap.insert, if_neg h₁, if_neg h₂]

/-- The length of a text without its counts and its entries. -/
def nodesFrame : Nat := (escapeString (utf8 "alive_node_count")).length + (escapeString (utf8 "node_count")).length +
  (escapeString (utf8 "nodes")).length + 15

def topicsFrame : Nat := (escapeString (utf8 "topic_count")).length + (escapeString (utf8 "topics")).length + 11

theorem length_nodesText (n : NodesInfo) : (nodesText D n).length = nodesFrame +
    (printInt n.alive_node_count.toInt).length + (printInt n.nodes_count.toInt).length +
    (serializeElems 0 ((List.range n.count).map (fun i => (nodeJson (n.nodes i) : JsonValue D)))).length := by
  rw [nodesText, ofList_nodesFields]
  simp only [JsonValue.serialize, serializeMembers, Nat.lt_irrefl, if_false, Nat.zero_add, Nat.reduceAdd, Nat.reduceLT,
    if_true, List.length_cons, List.length_append, List.length_nil, nodesFrame]
  omega

theorem length_topicsText (t : TopicsInfo) : (topicsText D t).length = topicsFrame +
    (printInt t.topics_count.toInt).length +
    (serializeElems 0 ((List.range t.count).map (fun i => (topicJson (t.topics i) : JsonValue D)))).length := by
  rw [topicsText, ofList_topicsFields]
  simp only [JsonValue.serialize, serializeMembers, Nat.lt_irrefl, if_false, Nat.zero_add, Nat.reduceLT, if_true,
    List.length_cons, List.length_append, List.length_nil, topicsFrame]
  omega

theorem length_nodesText_mono {n n' : NodesInfo} (hc : 0 ≤ n.nodes_count.toInt)
    (hc' : n.nodes_count.toInt ≤ n'.nodes_count.toInt) (ha : 0 ≤ n.alive_node_count.toInt)
    (ha' : n.alive_node_count.toInt ≤ n'.alive_node_count.toInt) (hn : ∀ i, i < n.count → n.nodes i = n'.nodes i) :
    (nodesText D n).length ≤ (nodesText D n').length := by
  have h₁ := length_printInt_mono ha ha'
  have h₂ := length_printInt_mono hc hc'
  have h₃ := length_elems_mono (D := D) (f := fun i => nodeJson (n.nodes i)) (g := fun i => nodeJson (n'.nodes i))
    (m := n.count) (n := n'.count) (by unfold NodesInfo.count; omega) (fun i hi => by rw [hn i hi])
  rw [length_nodesText, length_nodesText]
  omega

theorem length_topicsText_mono {t t' : TopicsInfo} (hc : 0 ≤ t.topics_count.toInt)
    (hc' : t.topics_count.toInt ≤ t'.topics_count.toInt) (ht : ∀ i, i < t.count → t.topics i = t'.topics i) :
    (topicsText D t).length ≤ (topicsText D t').length := by
  have h₁ := length_printInt_mono hc hc'
  have h₂ := length_elems_mono (D := D) (f := fun i => topicJson (t.topics i)) (g := fun i => topicJson (t'.topics i))
    (m := t.count) (n := t'.count) (by unfold TopicsInfo.count; omega) (fun i hi => by rw [ht i hi])
  rw [length_topicsText, length_topicsText]
  omega

end MiniRos2
