import MiniRos2.ShmManager
/-!
# RegistryServer — the registration server's handler, on every message

`handle_client` tests the first eight bytes of a message for `REGISTER` and then cuts the name and the address by the
position of the first comma, in `size_t` arithmetic: without a comma this position is `npos`, and `npos + 1` is 0.  A
message that starts with the word and is no registration is registered all the same, and the word alone ends the server
(`survives_iff`).
-/
namespace MiniRos2

open ByteMem (cstr cstr_append_of_ne cstr_eq_self)

/-! ## `std::string` -/

/-- `std::string::npos`. -/
def npos : UInt64 := -1

/-- `s.find(c)`. -/
def find (s : List UInt8) (c : UInt8) : UInt64 :=
  match s.findIdx? (· == c) with
  | some i => UInt64.ofNat i
  | none => npos

/-- `s.substr(pos, n)`. -/
def substr (s : List UInt8) (pos n : UInt64) : Except Abort (List UInt8) :=
  if s.length < pos.toNat then
    .error (.throws (.outOfRange (utf8 "basic_string::substr: __pos (which is " ++ toString pos.toNat ++
      utf8 ") > this->size() (which is " ++ toString s.length ++ utf8 ")")))
  else .ok ((s.drop pos.toNat).take n.toNat)

theorem substr_of_le {s : List UInt8} {pos : UInt64} (h : pos.toNat ≤ s.length) (n : UInt64) :
    substr s pos n = .ok ((s.drop pos.toNat).take n.toNat) := by
  unfold substr
  rw [if_neg (by omega)]

theorem substr_word (s : List UInt8) : substr s 0 8 = .ok (s.take 8) := substr_of_le (Nat.zero_le _) 8

theorem substr_npos {s : List UInt8} {pos : UInt64} (h : pos.toNat ≤ s.length) (hs : s.length < 2 ^ 64) :
    substr s pos npos = .ok (s.drop pos.toNat) := by
  have hn : npos.toNat = 2 ^ 64 - 1 := rfl
  rw [substr_of_le h, List.take_of_length_le]
  rw [List.length_drop]
  omega

/-- The position of the first comma after a text without commas. -/
theorem find_append {xs : List UInt8} {c : UInt8} (h : c ∉ xs) (ys : List UInt8) :
    find (xs ++ c :: ys) c = UInt64.ofNat xs.length := by
  have hidx : (xs ++ c :: ys).findIdx? (· == c) = some xs.length := by
    rw [List.findIdx?_append, List.findIdx?_eq_none_iff.2]
    · simp [List.findIdx?_cons]
    · intro x hx
      simp only [beq_eq_false_iff_ne, ne_eq]
      rintro rfl
      exact h hx
  unfold find
  rw [hidx]

/-- The position after the first comma is in the string, also where there is no comma. -/
theorem find_succ_le {s : List UInt8} (hs : s.length < 2 ^ 64 - 1) (c : UInt8) : (find s c + 1).toNat ≤ s.length := by
  unfold find
  cases hidx : s.findIdx? (· == c) with
  | none =>
    have hzero : (npos + 1).toNat = 0 := rfl
    simp only [hzero]
    omega
  | some i =>
    have hi := (List.findIdx?_eq_some_iff_findIdx_eq.1 hidx).1
    simp only [UInt64.toNat_add, UInt64.toNat_ofNat', UInt64.toNat_one]
    omega

/-! ## The handler -/

/-- The server's table, and the socket of the client. -/
structure Server where
  node_registry : List UInt8 → Option (List UInt8)
  sent : List (List UInt8)
  closed : Bool

/-- `char buffer[1024] = {0}` after `read`. -/
def buffer (received : List UInt8) : List UInt8 := received ++ List.replicate (1024 - received.length) 0

/-- **`handle_client`**, where `read` gave the bytes `received`. -/
def handle_client (received : List UInt8) (s : Server) : Except Abort Server := do
  let msg ← stringOf (buffer received)
  let word ← substr msg 0 8
  if word = utf8 "REGISTER" then
    let node_name ← substr msg 9 (find msg 44 - 9)
    let node_addr ← substr msg (find msg 44 + 1) npos
    return ⟨Function.update s.node_registry node_name (some node_addr), s.sent ++ [utf8 "OK"], true⟩
  else
    return { s with closed := true }

/-- `REGISTER name,addr`. -/
structure Registers (msg name addr : List UInt8) : Prop where
  text : msg = utf8 "REGISTER " ++ name ++ 44 :: addr
  comma : 44 ∉ name

/-- **The server survives a message**: the handler returns, a registration sets its entry and is answered, and every
other message leaves the table alone. -/
structure Survives (received : List UInt8) : Prop where
  returns : ∀ s, ∃ s', handle_client received s = .ok s'
  registers : ∀ name addr, Registers (cstr received) name addr → ∀ s s', handle_client received s = .ok s' →
    s'.node_registry = Function.update s.node_registry name (some addr) ∧ s'.sent = s.sent ++ [utf8 "OK"]
  otherwise : (∀ name addr, ¬ Registers (cstr received) name addr) → ∀ s s', handle_client received s = .ok s' →
    s'.node_registry = s.node_registry

theorem length_cstr_le (bs : List UInt8) : (cstr bs).length ≤ bs.length := (List.takeWhile_prefix _).length_le

theorem cstr_append_nul (xs ys : List UInt8) : cstr (xs ++ 0 :: ys) = cstr xs := by
  induction xs with
  | nil => rfl
  | cons x xs ih =>
    by_cases hx : x = 0
    · simp [cstr, hx]
    · simpa [cstr, hx] using ih

/-- The buffer behind the received bytes is zero, so there is a terminator. -/
theorem stringOf_buffer {received : List UInt8} (h : received.length ≤ 1023) :
    stringOf (buffer received) = .ok (cstr received) := by
  have hpad : List.replicate (1024 - received.length) (0 : UInt8) = 0 :: List.replicate (1023 - received.length) 0 := by
    rw [← List.replicate_succ]
    congr 1
    omega
  unfold stringOf buffer
  rw [hpad, if_pos (List.mem_append_right _ List.mem_cons_self), cstr_append_nul]

theorem take_eq_word_iff (msg : List UInt8) : msg.take 8 = utf8 "REGISTER" ↔ utf8 "REGISTER" <+: msg := by
  have hlen : (utf8 "REGISTER").length = 8 := by rfl
  rw [List.prefix_iff_eq_take, hlen]
  exact eq_comm

/-- The handler on a message that starts with another word. -/
theorem handle_client_other {received : List UInt8} (h : received.length ≤ 1023)
    (hword : ¬ utf8 "REGISTER" <+: cstr received) (s : Server) :
    handle_client received s = .ok { s with closed := true } := by
  unfold handle_client
  rw [stringOf_buffer h, Except.ok_bind, substr_word, Except.ok_bind]
  exact if_neg (mt (take_eq_word_iff _).1 hword)

/-- **The handler on a message that starts with the word and goes on**: some name and address are registered. -/
theorem handle_client_word {received : List UInt8} (h : received.length ≤ 1023)
    (hword : utf8 "REGISTER" <+: cstr received) (hlong : 9 ≤ (cstr received).length) (s : Server) :
    handle_client received s = .ok ⟨Function.update s.node_registry
      (((cstr received).drop 9).take (find (cstr received) 44 - 9).toNat)
      (some ((cstr received).drop (find (cstr received) 44 + 1).toNat)), s.sent ++ [utf8 "OK"], true⟩ := by
  have hshort := length_cstr_le received
  unfold handle_client
  rw [stringOf_buffer h, Except.ok_bind, substr_word, Except.ok_bind, if_pos ((take_eq_word_iff _).2 hword)]
  rw [substr_of_le (by simpa using hlong), Except.ok_bind, substr_npos (find_succ_le (by omega) 44) (by omega)]
  rfl

/-- The word alone: the position 9 is behind the string's end. -/
theorem handle_client_alone {received : List UInt8} (h : received.length ≤ 1023)
    (hword : utf8 "REGISTER" <+: cstr received) (hshort : (cstr received).length < 9) (s : Server) :
    ∃ e, handle_client received s = .error (.throws e) := by
  obtain ⟨e, he⟩ : ∃ e, substr (cstr received) 9 (find (cstr received) 44 - 9) = .error (.throws e) := by
    unfold substr
    rw [if_pos (by simpa using hshort)]
    exact ⟨_, rfl⟩
  refine ⟨e, ?_⟩
  unfold handle_client
  rw [stringOf_buffer h, Except.ok_bind, substr_word, Except.ok_bind, he]
  exact if_pos ((take_eq_word_iff _).2 hword)

theorem Registers.word {msg name addr : List UInt8} (h : Registers msg name addr) : utf8 "REGISTER" <+: msg := by
  rw [h.text, List.append_assoc]
  exact List.IsPrefix.trans ⟨[32], by rfl⟩ (List.prefix_append _ _)

theorem Registers.long {msg name addr : List UInt8} (h : Registers msg name addr) : 9 ≤ msg.length := by
  have hword : (utf8 "REGISTER ").length = 9 := by rfl
  rw [h.text, List.length_append, List.length_append, hword]
  omega

/-- A registration is cut at its comma. -/
theorem Registers.cut {msg name addr : List UInt8} (h : Registers msg name addr) (hlen : msg.length ≤ 1023) :
    (msg.drop 9).take (find msg 44 - 9).toNat = name ∧ msg.drop (find msg 44 + 1).toNat = addr := by
  obtain ⟨rfl, hcomma⟩ := h
  have hword : (utf8 "REGISTER ").length = 9 := by rfl
  have hno : 44 ∉ utf8 "REGISTER " ++ name := by
    rw [List.mem_append, not_or]
    exact ⟨by decide +kernel, hcomma⟩
  have hbound : 9 + name.length < 2 ^ 64 - 1 := by
    simp only [List.length_append, List.length_cons, hword] at hlen
    omega
  have hsub : (UInt64.ofNat (9 + name.length) - 9).toNat = name.length := by
    simp only [UInt64.toNat_sub, UInt64.toNat_ofNat', UInt64.reduceToNat]
    omega
  have hadd : (UInt64.ofNat (9 + name.length) + 1).toNat = 9 + name.length + 1 := by
    simp only [UInt64.toNat_add, UInt64.toNat_ofNat', UInt64.toNat_one]
    omega
  rw [find_append hno, List.length_append, hword, hsub, hadd, List.append_assoc]
  constructor
  · rw [List.drop_left' hword, List.take_left' rfl]
  · have hlen' : (utf8 "REGISTER " ++ (name ++ [44])).length = 9 + name.length + 1 := by
      simp only [List.length_append, List.length_singleton, hword]
      omega
    rw [show utf8 "REGISTER " ++ (name ++ 44 :: addr) = utf8 "REGISTER " ++ (name ++ [44]) ++ addr by simp,
      List.drop_left' hlen']

/-- **The server survives a message exactly when it starts with another word or is a registration.** -/
theorem survives_iff {received : List UInt8} (h : received.length ≤ 1023) :
    Survives received ↔
      ¬ utf8 "REGISTER" <+: cstr received ∨ ∃ name addr, Registers (cstr received) name addr := by
  have hshort := length_cstr_le received
  constructor
  · intro hs
    by_contra hno
    obtain ⟨hword, hnone⟩ := not_or.1 hno
    have hword := not_not.1 hword
    let empty : Server := ⟨fun _ => none, [], false⟩
    by_cases hlong : 9 ≤ (cstr received).length
    · have hset := congrFun (hs.otherwise (fun name addr hr => hnone ⟨name, addr, hr⟩) empty _
        (handle_client_word h hword hlong empty)) (((cstr received).drop 9).take (find (cstr received) 44 - 9).toNat)
      simp only [Function.update_self] at hset
      cases hset
    · obtain ⟨s', hs'⟩ := hs.returns empty
      obtain ⟨e, he⟩ := handle_client_alone h hword (by omega) empty
      rw [he] at hs'
      cases hs'
  · rintro (hother | ⟨name, addr, hr⟩)
    · constructor
      · intro s
        exact ⟨_, handle_client_other h hother s⟩
      · intro name addr hr
        exact absurd hr.word hother
      · intro _ s s' hs'
        rw [handle_client_other h hother s] at hs'
        cases hs'
        rfl
    · have hset := handle_client_word h hr.word hr.long
      obtain ⟨hname, haddr⟩ := hr.cut (by omega)
      constructor
      · intro s
        exact ⟨_, hset s⟩
      · intro name' addr' hr' s s' hs'
        obtain ⟨hname', haddr'⟩ := hr'.cut (by omega)
        rw [hset s, hname', haddr'] at hs'
        cases hs'
        exact ⟨rfl, rfl⟩
      · intro hnone
        exact absurd hr (hnone name addr)

/-- A registration of `a` at `b`. -/
theorem survives_one : (utf8 "REGISTER a,b").length ≤ 1023 ∧ Survives (utf8 "REGISTER a,b") := by
  have hlen : (utf8 "REGISTER a,b").length ≤ 1023 := by decide +kernel
  have hreg : Registers (cstr (utf8 "REGISTER a,b")) [97] [98] := ⟨by decide +kernel, by decide⟩
  exact ⟨hlen, (survives_iff hlen).2 (.inr ⟨[97], [98], hreg⟩)⟩

/-- The word alone throws out of the detached thread. -/
theorem survives_not_always : ¬ ∀ received : List UInt8, received.length ≤ 1023 → Survives received := by
  intro h
  obtain ⟨s', hs'⟩ := (h (utf8 "REGISTER") (by decide +kernel)).returns ⟨fun _ => none, [], false⟩
  have hthrow : handle_client (utf8 "REGISTER") ⟨fun _ => none, [], false⟩ =
      .error (.throws (.outOfRange (utf8
        "basic_string::substr: __pos (which is 9) > this->size() (which is 8)"))) := by
    rfl
  rw [hthrow] at hs'
  cases hs'

end MiniRos2
