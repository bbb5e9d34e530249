import StDns.Store.KvHistory

/-!
# A get beside a put

`get` reads a value and, when that has expired, erases its key; `put` on another thread writes in one operation. The
operations on LevelDB are atomic, nothing else is. A value that was put can be lost: the order of the operations in
which that happens, and when the value does not come back although it is there, is all there is (`put_kept_iff`).
-/

namespace StDns.Store

open Lib Proto

/-! ## The source, operation by operation -/

/-- How far a `get` is: nothing read, a value read, found to be expired, returned. -/
inductive GetPhase where
  | begun
  | found (data : Bytes)
  | expired
  | returned (result : Bytes)

/-- How far a `put` is: the value it is going to write, and when it was made, once it has looked at the clock. -/
inductive PutPhase where
  | begun
  | stamped (birth : Nat)
  | returned (birth : Nat)

structure Race where
  db : LevelDb
  get : GetPhase := .begun
  put : PutPhase := .begun

inductive RaceAction where
  | read
  | check
  | erase
  | stamp
  | write
  deriving DecidableEq

section Steps

variable (P : Protobuf) (key value : Bytes) (expire : UInt32)

/-- `db->Get`. -/
def GetPhase.read (db : LevelDb) : GetPhase :=
  match db.lookup key with
  | none => .returned []
  | some data => .found data

/-- `not_expired` of the value that was read. -/
def GetPhase.check (now : Nat) (data : Bytes) : GetPhase :=
  let val := P.parseValue data
  if notExpired now val then .returned val.data else .expired

/-- An action of the get or of the put at the time `now`. -/
inductive RaceStep (now : Nat) : Race → RaceAction → Race → Prop
  | read (s : Race) : s.get = .begun → RaceStep now s .read { s with get := .read key s.db }
  | check (s : Race) {data : Bytes} : s.get = .found data →
    RaceStep now s .check { s with get := .check P now data }
  | erase (s : Race) : s.get = .expired →
    RaceStep now s .erase { s with db := DiskKv.erase s.db key, get := .returned [] }
  | stamp (s : Race) : s.put = .begun → RaceStep now s .stamp { s with put := .stamped now }
  | write (s : Race) {birth : Nat} : s.put = .stamped birth →
    RaceStep now s .write { s with db := DiskKv.put P birth s.db key value expire, put := .returned birth }

/-- All interleavings of a get and a put of one key, with a clock that does not go back. -/
inductive RaceRun (db : LevelDb) : List (Nat × RaceAction) → Race → Prop
  | start : RaceRun db [] { db := db }
  | next {log : List (Nat × RaceAction)} {s s' : Race} {now : Nat} {action : RaceAction} : RaceRun db log s →
    (∀ e ∈ log, e.1 ≤ now) → RaceStep P key value expire now s action s' → RaceRun db (log ++ [(now, action)]) s'

end Steps

/-- The operations on LevelDB, in their order. -/
def dbOrder (log : List (Nat × RaceAction)) : List RaceAction :=
  (log.map Prod.snd).filter fun action => action ≠ .check && action ≠ .stamp

/-- The value that was put at `birth` is to be there at the time `t`. -/
def InLifetime (birth : Nat) (expire : UInt32) (t : Nat) : Prop := expire = 0 ∨ t / 1000 < birth / 1000 + expire.toNat

/-- What is stored is the value, for all of its lifetime. -/
def Lossless (birth : Nat) (value : Bytes) (expire : UInt32) : Prop :=
  (0 : UInt8) ∉ value ∧
    (expire = 0 ∨ birth / 1000 + expire.toNat < 2 ^ 32 ∨ (birth / 1000 + expire.toNat) % 2 ^ 32 = 0)

section Race

variable {P : Protobuf} {key value : Bytes} {expire : UInt32} {db : LevelDb} {log : List (Nat × RaceAction)}
  {s s' : Race} {now birth : Nat} {action : RaceAction}

/-- A get that runs alone. -/
theorem get_alone : DiskKv.get P now db key =
    match GetPhase.read key db with
    | .found data =>
      match GetPhase.check P now data with
      | .returned result => (result, db)
      | _ => ([], DiskKv.erase db key)
    | _ => ([], db) := by
  unfold DiskKv.get GetPhase.read GetPhase.check
  cases db.lookup key with
  | none => rfl
  | some data =>
    simp only
    split <;> rfl

theorem dbOrder_append (log : List (Nat × RaceAction)) (e : Nat × RaceAction) :
    dbOrder (log ++ [e]) = dbOrder log ++ dbOrder [e] := by
  rw [dbOrder, List.map_append, List.filter_append]
  rfl

/-- The value that the put wrote was found to be expired. -/
def FoundExpired (log : List (Nat × RaceAction)) (birth : Nat) (value : Bytes) (expire : UInt32) : Prop :=
  ∃ e ∈ log, ¬notExpired e.1 (putValue birth value expire)

/-- What holds in every run: before the put has written, the get is where its operations are; from then on the value
lies under the key, unless it was erased, and then the get has read before the put or has found the new value to be
expired. -/
def RaceKept (P : Protobuf) (key value : Bytes) (expire : UInt32) (log : List (Nat × RaceAction)) (s : Race) : Prop :=
  match s.put with
  | .begun | .stamped _ =>
    match s.get with
    | .begun => dbOrder log = []
    | .found _ | .expired => dbOrder log = [.read]
    | .returned _ => dbOrder log = [.read] ∨ dbOrder log = [.read, .erase]
  | .returned birth =>
    let written := P.serializeValue (putValue birth value expire)
    match s.get with
    | .begun => dbOrder log = [.write] ∧ s.db.lookup key = some written
    | .found data => (dbOrder log = [.read, .write] ∨ dbOrder log = [.write, .read] ∧ data = written) ∧
      s.db.lookup key = some written
    | .expired => (dbOrder log = [.read, .write] ∨
        dbOrder log = [.write, .read] ∧ FoundExpired log birth value expire) ∧ s.db.lookup key = some written
    | .returned _ =>
      (dbOrder log ∈ [[.read, .write], [.write, .read], [.read, .erase, .write]] ∧ s.db.lookup key = some written) ∨
      ((dbOrder log = [.read, .write, .erase] ∨
          dbOrder log = [.write, .read, .erase] ∧ FoundExpired log birth value expire) ∧
        s.db.lookup key = none)

theorem FoundExpired.mono (h : FoundExpired log birth value expire) (e : Nat × RaceAction) :
    FoundExpired (log ++ [e]) birth value expire := by
  obtain ⟨e', he', hexpired⟩ := h
  exact ⟨e', List.mem_append_left _ he', hexpired⟩

theorem RaceKept.read (h : RaceKept P key value expire log s) (hget : s.get = .begun) :
    RaceKept P key value expire (log ++ [(now, .read)]) { s with get := .read key s.db } := by
  obtain ⟨db, get, put⟩ := s
  cases hget
  unfold RaceKept GetPhase.read
  rw [dbOrder_append]
  cases put with
  | begun | stamped birth =>
    have horder : dbOrder log = [] := h
    rw [horder]
    cases hlookup : db.lookup key with
    | none => exact .inl rfl
    | some data => rfl
  | returned birth =>
    obtain ⟨horder, hlookup⟩ : dbOrder log = [.write] ∧ db.lookup key = _ := h
    rw [horder]
    simp only [hlookup]
    exact ⟨.inr ⟨rfl, trivial⟩, trivial⟩

/-- What the check of a value that was read comes to. -/
theorem check_cases (now : Nat) (data : Bytes) :
    GetPhase.check P now data = .returned (P.parseValue data).data ∨
      GetPhase.check P now data = .expired ∧ ¬notExpired now (P.parseValue data) := by
  unfold GetPhase.check
  by_cases hexpired : notExpired now (P.parseValue data)
  · exact .inl (if_pos hexpired)
  · exact .inr ⟨if_neg hexpired, hexpired⟩

theorem RaceKept.check (h : RaceKept P key value expire log s) {data : Bytes} (hget : s.get = .found data) :
    RaceKept P key value expire (log ++ [(now, .check)]) { s with get := .check P now data } := by
  obtain ⟨db, get, put⟩ := s
  cases hget
  have hsame : dbOrder (log ++ [(now, .check)]) = dbOrder log := by
    rw [dbOrder_append]
    exact List.append_nil _
  unfold RaceKept
  rw [hsame]
  cases put with
  | begun | stamped birth =>
    have horder : dbOrder log = [.read] := h
    rcases check_cases (P := P) now data with hcheck | ⟨hcheck, -⟩
    · rw [hcheck]
      exact .inl horder
    · rw [hcheck]
      exact horder
  | returned birth =>
    obtain ⟨horder, hlookup⟩ := h
    rcases check_cases (P := P) now data with hcheck | ⟨hcheck, hexpired⟩
    · rw [hcheck]
      refine .inl ⟨?_, hlookup⟩
      rcases horder with horder | ⟨horder, -⟩
      · rw [horder]
        exact .head _
      · rw [horder]
        exact .tail _ (.head _)
    · rw [hcheck]
      refine ⟨horder.imp_right fun hwrite => ⟨hwrite.1, (now, .check), ?_, ?_⟩, hlookup⟩
      · exact List.mem_append_right _ (List.mem_singleton_self _)
      · have hdata := hwrite.2
        rwa [hdata, P.value_inverse] at hexpired

theorem RaceKept.erase (h : RaceKept P key value expire log s) (hget : s.get = .expired) :
    RaceKept P key value expire (log ++ [(now, .erase)])
      { s with db := DiskKv.erase s.db key, get := .returned [] } := by
  obtain ⟨db, get, put⟩ := s
  cases hget
  unfold RaceKept
  rw [dbOrder_append]
  cases put with
  | begun | stamped birth =>
    have horder : dbOrder log = [.read] := h
    rw [horder]
    exact .inr rfl
  | returned birth =>
    obtain ⟨horder, hlookup⟩ := h
    refine .inr ⟨?_, AList.lookup_erase _ _⟩
    rcases horder with horder | ⟨horder, hexpired⟩
    · rw [horder]
      exact .inl rfl
    · rw [horder]
      exact .inr ⟨rfl, hexpired.mono _⟩

theorem RaceKept.stamp (h : RaceKept P key value expire log s) (hput : s.put = .begun) :
    RaceKept P key value expire (log ++ [(now, .stamp)]) { s with put := .stamped now } := by
  obtain ⟨db, get, put⟩ := s
  cases hput
  have hsame : dbOrder (log ++ [(now, .stamp)]) = dbOrder log := by
    rw [dbOrder_append]
    exact List.append_nil _
  unfold RaceKept
  rw [hsame]
  cases get <;> exact h

theorem RaceKept.write (h : RaceKept P key value expire log s) (hput : s.put = .stamped birth) :
    RaceKept P key value expire (log ++ [(now, .write)])
      { s with db := DiskKv.put P birth s.db key value expire, put := .returned birth } := by
  obtain ⟨db, get, put⟩ := s
  cases hput
  have hlookup : (DiskKv.put P birth db key value expire).lookup key =
      some (P.serializeValue (putValue birth value expire)) := AList.lookup_insert _
  unfold RaceKept
  rw [dbOrder_append]
  cases get with
  | begun =>
    have horder : dbOrder log = [] := h
    rw [horder]
    exact ⟨rfl, hlookup⟩
  | found data =>
    have horder : dbOrder log = [.read] := h
    rw [horder]
    exact ⟨.inl rfl, hlookup⟩
  | expired =>
    have horder : dbOrder log = [.read] := h
    rw [horder]
    exact ⟨.inl rfl, hlookup⟩
  | returned result =>
    have horder : dbOrder log = [.read] ∨ dbOrder log = [.read, .erase] := h
    refine .inl ⟨?_, hlookup⟩
    rcases horder with horder | horder
    · rw [horder]
      exact .head _
    · rw [horder]
      exact .tail _ (.tail _ (.head _))

theorem raceKept_of_run (h : RaceRun P key value expire db log s) : RaceKept P key value expire log s := by
  induction h with
  | start => rfl
  | next _ _ hstep ih =>
    cases hstep with
    | read hget => exact ih.read hget
    | check hget => exact ih.check hget
    | erase hget => exact ih.erase hget
    | stamp hput => exact ih.stamp hput
    | write hput => exact ih.write hput

/-- After the put its value lies under the key, or it has been erased. -/
theorem RaceKept.lookup (h : RaceKept P key value expire log s) (hput : s.put = .returned birth) :
    (s.db.lookup key = some (P.serializeValue (putValue birth value expire)) ∧ dbOrder log ≠ [.read, .write, .erase]) ∨
      (s.db.lookup key = none ∧ (dbOrder log = [.read, .write, .erase] ∨ FoundExpired log birth value expire)) := by
  obtain ⟨db, get, put⟩ := s
  cases hput
  cases get with
  | begun =>
    obtain ⟨horder, hlookup⟩ := h
    exact .inl ⟨hlookup, by rw [horder]; decide⟩
  | found data =>
    obtain ⟨horder | ⟨horder, -⟩, hlookup⟩ := h
    · exact .inl ⟨hlookup, by rw [horder]; decide⟩
    · exact .inl ⟨hlookup, by rw [horder]; decide⟩
  | expired =>
    obtain ⟨horder | ⟨horder, -⟩, hlookup⟩ := h
    · exact .inl ⟨hlookup, by rw [horder]; decide⟩
    · exact .inl ⟨hlookup, by rw [horder]; decide⟩
  | returned result =>
    rcases h with ⟨horder, hlookup⟩ | ⟨horder, hlookup⟩
    · refine .inl ⟨hlookup, fun heq => ?_⟩
      rw [heq] at horder
      exact absurd horder (by decide)
    · exact .inr ⟨hlookup, horder.imp_right And.right⟩

end Race

/-! ## What a later get gives -/

section Later

variable {P : Protobuf} {key value : Bytes} {expire : UInt32} {db : LevelDb} {log : List (Nat × RaceAction)} {s : Race}
  {now birth t : Nat}

theorem InLifetime.earlier (h : InLifetime birth expire t) (hle : now ≤ t) : InLifetime birth expire now :=
  h.imp_right fun hlt => Nat.lt_of_le_of_lt (Nat.div_le_div_right hle) hlt

/-- The expiry that is stored. -/
theorem notExpired_putValue_iff : notExpired t (putValue birth value expire) ↔
    expire = 0 ∨ (birth / 1000 + expire.toNat) % 2 ^ 32 = 0 ∨ t / 1000 < (birth / 1000 + expire.toNat) % 2 ^ 32 := by
  unfold notExpired putValue
  by_cases hexpire : expire = 0
  · simp [hexpire]
  · have hstored : (UInt32.ofNat (birth / 1000 + expire.toNat)).toNat = (birth / 1000 + expire.toNat) % 2 ^ 32 :=
      UInt32.toNat_ofNat' ..
    have hzero : UInt32.ofNat (birth / 1000 + expire.toNat) = 0 ↔ (birth / 1000 + expire.toNat) % 2 ^ 32 = 0 := by
      rw [← hstored, ← UInt32.toNat_inj]
      rfl
    simp only [ne_eq, hexpire, not_false_eq_true, if_true, hzero, hstored, false_or]

/-- Stored without loss a value is there for its lifetime. -/
theorem Lossless.notExpired (h : Lossless birth value expire) (ht : InLifetime birth expire t) :
    notExpired t (putValue birth value expire) := by
  rw [notExpired_putValue_iff]
  rcases h.2 with hexpire | hlt | hzero
  · exact .inl hexpire
  · rcases ht with hexpire | ht
    · exact .inl hexpire
    · rw [Nat.mod_eq_of_lt hlt]
      exact .inr (.inr ht)
  · exact .inr (.inl hzero)

theorem get_written (h : db.lookup key = some (P.serializeValue (putValue birth value expire))) (t : Nat) :
    (DiskKv.get P t db key).1 = if notExpired t (putValue birth value expire) then cString value else [] := by
  rw [DiskKv.get, h]
  simp only [P.value_inverse]
  split <;> rfl

/-- A value that is there for its lifetime was stored without loss. -/
theorem lossless_of_get (hvalue : value ≠ []) (hnow : InLifetime birth expire now)
    (h : ∀ t, now ≤ t → InLifetime birth expire t →
      (if notExpired t (putValue birth value expire) then cString value else []) = value) :
    Lossless birth value expire := by
  have hthere : ∀ t, now ≤ t → InLifetime birth expire t →
      notExpired t (putValue birth value expire) ∧ cString value = value := by
    intro t ht hlife
    have hget := h t ht hlife
    split at hget
    · rename_i halive
      exact ⟨halive, hget⟩
    · exact absurd hget.symm hvalue
  refine ⟨(hthere now (Nat.le_refl _) hnow).2 ▸ zero_notMem_cString value, ?_⟩
  by_contra hoverflow
  obtain ⟨hexpire, hoverflow⟩ := not_or.1 hoverflow
  obtain ⟨hlarge, hzero⟩ := not_or.1 hoverflow
  -- the stored second comes before the deadline, and then the value is taken to be expired
  have hlife := hnow.resolve_left hexpire
  have halive := (hthere (max now ((birth / 1000 + expire.toNat) % 2 ^ 32 * 1000)) (Nat.le_max_left _ _)
    (.inr (by omega))).1
  rw [notExpired_putValue_iff] at halive
  rcases halive with halive | halive | halive
  · exact hexpire halive
  · exact hzero halive
  · omega

/-- **A get beside a put**: once the put has returned, a later get gives its value for all of its lifetime iff the value
is empty, or its lifetime is over, or it was stored without loss and the get did not read before the put has written and
erase after it. -/
theorem put_kept_iff (hrun : RaceRun P key value expire db log s) (hput : s.put = .returned birth)
    (hnow : ∀ e ∈ log, e.1 ≤ now) :
    (∀ t, now ≤ t → InLifetime birth expire t → (DiskKv.get P t s.db key).1 = value) ↔
      value = [] ∨ ¬InLifetime birth expire now ∨
        (Lossless birth value expire ∧ dbOrder log ≠ [.read, .write, .erase]) := by
  rcases (raceKept_of_run hrun).lookup hput with ⟨hlookup, horder⟩ | ⟨hlookup, horder⟩
  · simp only [get_written hlookup]
    constructor
    · intro h
      by_cases hvalue : value = []
      · exact .inl hvalue
      · by_cases hlife : InLifetime birth expire now
        · exact .inr (.inr ⟨lossless_of_get hvalue hlife h, horder⟩)
        · exact .inr (.inl hlife)
    · rintro (rfl | hover | ⟨hlossless, -⟩) t ht hlife
      · exact ite_self _
      · exact absurd (hlife.earlier ht) hover
      · rw [if_pos (hlossless.notExpired hlife), cString_of_zeroFree hlossless.1]
  · simp only [get_of_lookup_none hlookup]
    constructor
    · intro h
      by_cases hlife : InLifetime birth expire now
      · exact .inl (h now (Nat.le_refl _) hlife).symm
      · exact .inr (.inl hlife)
    · rintro (rfl | hover | ⟨hlossless, hother⟩) t ht hlife
      · rfl
      · exact absurd (hlife.earlier ht) hover
      · obtain ⟨e, he, hexpired⟩ := horder.resolve_left hother
        exact absurd (hlossless.notExpired (hlife.earlier (Nat.le_trans (hnow e he) ht))) hexpired

end Later

/-! ## A lost value -/

/-- A store with a value under `k` that has expired by the second 5. -/
def expiredDb : LevelDb := DiskKv.put wire 0 ∅ [107] [111] 1

/-- The get has read that value, the put has written, and the get has erased the key. -/
def lostRace : Race :=
  { db := DiskKv.erase (DiskKv.put wire 5000 expiredDb [107] [118] 0) [107]
    get := .returned []
    put := .returned 5000 }

theorem run_lostRace : RaceRun wire [107] [118] 0 expiredDb
    [(5000, .read), (5000, .stamp), (5000, .write), (5000, .check), (5000, .erase)] lostRace := by
  have hread : GetPhase.read [107] expiredDb = .found (wire.serializeValue { expire := 1, data := [111] }) := rfl
  have hcheck : GetPhase.check wire 5000 (wire.serializeValue { expire := 1, data := [111] }) = .expired := by
    rw [GetPhase.check, wire.value_inverse]
    exact if_neg (by decide)
  have read : RaceRun wire [107] [118] 0 expiredDb [(5000, .read)] _ :=
    RaceRun.start.next (by decide) (.read { db := expiredDb } rfl)
  rw [hread] at read
  have stamped : RaceRun wire [107] [118] 0 expiredDb [(5000, .read), (5000, .stamp)] _ :=
    read.next (by decide) (.stamp _ rfl)
  have written : RaceRun wire [107] [118] 0 expiredDb [(5000, .read), (5000, .stamp), (5000, .write)] _ :=
    stamped.next (by decide) (.write _ rfl)
  have checked : RaceRun wire [107] [118] 0 expiredDb
      [(5000, .read), (5000, .stamp), (5000, .write), (5000, .check)] _ := written.next (by decide) (.check _ rfl)
  rw [hcheck] at checked
  exact checked.next (by decide) (.erase _ rfl)

theorem put_kept_iff_at :
    (∀ t, 5000 ≤ t → InLifetime 5000 0 t → (DiskKv.get wire t lostRace.db [107]).1 = [118]) ↔
      ([118] : Bytes) = [] ∨ ¬InLifetime 5000 0 5000 ∨ (Lossless 5000 [118] 0 ∧
        dbOrder [(5000, .read), (5000, .stamp), (5000, .write), (5000, .check), (5000, .erase)] ≠
          [.read, .write, .erase]) :=
  put_kept_iff run_lostRace rfl (by decide)

/-- The get erases what the put has written. -/
theorem put_not_kept : ¬∀ (P : Protobuf) (key value : Bytes) (expire : UInt32) (db : LevelDb)
    (log : List (Nat × RaceAction)) (s : Race) (birth now : Nat), RaceRun P key value expire db log s →
    s.put = .returned birth → (∀ e ∈ log, e.1 ≤ now) → ∀ t, now ≤ t → InLifetime birth expire t →
    (DiskKv.get P t s.db key).1 = value := by
  intro h
  have hget := h wire [107] [118] 0 expiredDb _ lostRace 5000 5000 run_lostRace rfl (by decide) 5000 (Nat.le_refl _)
    (.inl rfl)
  exact absurd hget (by decide)

end StDns.Store
