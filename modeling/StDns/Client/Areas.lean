import StDns.Client.Fetch

/-!
# The calls for several areas

For several areas `tcp_dns` and `tcp_tls_dns` ask once for each, and the handlers share a counter, a flag and a set,
which the one that finds the counter full hands on and deletes. As long as the counter can hold the number of areas,
that is the last one, in whatever order the results arrive: `complete_handler` is called once, with the union of all
results (`completes_with_last`).
-/

namespace StDns.Client

open Lib

/-! ## Handlers -/

/-- The variables that the handlers share, until they are deleted, and the calls of `complete_handler`. -/
structure Handlers where
  shared : Option AreaState := some {}
  completed : List (List Nat × Bool) := []

/-- The handler of an area; nothing when the variables are deleted. -/
def Handlers.each (full : UInt16 → Bool) (order : List Nat → List Nat) (h : Handlers) (ips : List Nat) :
    Option Handlers := do
  let s := (← h.shared).each ips
  if full s.counter then return { shared := none, completed := h.completed ++ [(order s.result, s.loadAll)] }
  else return { h with shared := some s }

/-- The calls of `complete_handler` when results have arrived. -/
def areaCalls (full : UInt16 → Bool) (order : List Nat → List Nat) (areas : List (Bytes × UInt16))
    (arrived : List (List Nat)) : Option (List (List Nat × Bool)) :=
  match areas with
  | [] | [_] => some (arrived.map fun ips => (ips, true))
  | _ :: _ :: _ => (arrived.foldlM (Handlers.each full order) {}).map Handlers.completed

/-- `tcp_dns` for some areas. -/
def tcpDnsCalls (areas : List (Bytes × UInt16)) (arrived : List (List Nat)) : Option (List (List Nat × Bool)) :=
  areaCalls (fun counter => counter.toNat = areas.length) (fun result => result.mergeSort) areas arrived

/-- `tcp_tls_dns` for some areas; the set has whatever `order`. -/
def tcpTlsDnsCalls (order : List Nat → List Nat) (areas : List (Bytes × UInt16)) (arrived : List (List Nat)) :
    Option (List (List Nat × Bool)) :=
  areaCalls (fun counter => areas.length ≤ counter.toNat) order areas arrived

/-- The areas that are asked for: without any there is one call, for no area. -/
def queries (areas : List (Bytes × UInt16)) : List (Bytes × UInt16) := if areas = [] then [([], 0)] else areas

/-! ## The variables of the handlers -/

section Handling

variable {full : UInt16 → Bool} {order : List Nat → List Nat} {s : AreaState} {k : Nat}
  {areas : List (Bytes × UInt16)} {arrived results : List (List Nat)}

theorem nodup_emplaced (ips : List Nat) {result : List Nat} (h : result.Nodup) :
    (ips.foldl (fun result ip => if ip ∈ result then result else result ++ [ip]) result).Nodup := by
  induction ips generalizing result with
  | nil => exact h
  | cons ip ips ih =>
    rw [List.foldl_cons]
    apply ih
    split
    · exact h
    · rename_i hip
      exact List.nodup_append.2 ⟨h, List.nodup_singleton _, fun a ha b hb e => hip (List.mem_singleton.1 hb ▸ e ▸ ha)⟩

/-- What the variables are after some results. -/
theorem foldl_each (arrived : List (List Nat)) (s : AreaState) (h : s.result.Nodup) :
    (arrived.foldl AreaState.each s).counter = s.counter + UInt16.ofNat arrived.length ∧
      ((arrived.foldl AreaState.each s).loadAll = true ↔ s.loadAll = true ∧ [] ∉ arrived) ∧
      (arrived.foldl AreaState.each s).result.Nodup ∧
      ∀ ip, ip ∈ (arrived.foldl AreaState.each s).result ↔ ip ∈ s.result ∨ ∃ ips ∈ arrived, ip ∈ ips := by
  induction arrived generalizing s with
  | nil => simp [h]
  | cons ips arrived ih =>
    obtain ⟨hcounter, hall, hnodup, hmem⟩ := ih (s.each ips) (nodup_emplaced ips h)
    refine ⟨?_, ?_, hnodup, fun ip => ?_⟩
    · rw [List.foldl_cons, hcounter, AreaState.each, List.length_cons, UInt16.add_assoc, Nat.add_comm arrived.length,
        UInt16.ofNat_add]
      rfl
    · rw [List.foldl_cons, hall, List.mem_cons, not_or, ← and_assoc]
      cases ips <;> simp [AreaState.each]
    · rw [List.foldl_cons, hmem, AreaState.each, mem_emplaced, List.exists_mem_cons_iff, or_assoc]

/-- The test of the counter is whether it has reached `k`. -/
def Fills (full : UInt16 → Bool) (k : Nat) : Prop :=
  ∀ counter : UInt16, counter.toNat ≤ k → (full counter = true ↔ counter.toNat = k)

/-- **Before the last result** no handler completes. -/
theorem each_before (hfull : Fills full k) (hk : k ≤ 65535) (arrived : List (List Nat)) {s : AreaState}
    (h : s.counter.toNat + arrived.length < k) :
    arrived.foldlM (Handlers.each full order) { shared := some s } =
      some { shared := some (arrived.foldl AreaState.each s) } := by
  induction arrived generalizing s with
  | nil => rfl
  | cons ips arrived ih =>
    rw [List.length_cons] at h
    have hcounter : (s.each ips).counter.toNat = s.counter.toNat + 1 := by
      rw [AreaState.each, UInt16.toNat_add, UInt16.toNat_one]
      omega
    have hnot : ¬full (s.each ips).counter = true := by
      rw [hfull _ (by omega)]
      omega
    have hround : Handlers.each full order { shared := some s } ips = some { shared := some (s.each ips) } := by
      simp only [Handlers.each, Option.bind_eq_bind, Option.bind_some, if_neg hnot, Option.pure_def]
    rw [List.foldlM_cons, hround, Option.bind_eq_bind, Option.bind_some, ih (by omega), List.foldl_cons]

/-- **The last result** completes, and deletes the variables. -/
theorem each_last (hfull : Fills full k) (hk : k ≤ 65535) (arrived : List (List Nat)) (ips : List Nat)
    (h : arrived.length + 1 = k) : (arrived ++ [ips]).foldlM (Handlers.each full order) {} = some
      { shared := none
        completed := [(order ((arrived ++ [ips]).foldl AreaState.each {}).result,
          ((arrived ++ [ips]).foldl AreaState.each {}).loadAll)] } := by
  have hbefore := @each_before full order k hfull hk arrived {} (by rw [UInt16.toNat_zero]; omega)
  have hcounter := (foldl_each (arrived ++ [ips]) {} List.nodup_nil).1
  have hreached : full ((arrived ++ [ips]).foldl AreaState.each {}).counter = true := by
    rw [hcounter, UInt16.zero_add, hfull, UInt16.toNat_ofNat', List.length_append, List.length_singleton]
    · omega
    · rw [UInt16.toNat_ofNat', List.length_append, List.length_singleton]
      omega
  rw [List.foldlM_append, hbefore, Option.bind_eq_bind, Option.bind_some, List.foldlM_cons, Handlers.each]
  rw [List.foldl_append, List.foldl_cons, List.foldl_nil] at hreached ⊢
  simp only [Option.bind_eq_bind, Option.bind_some, if_pos hreached, Option.pure_def, List.foldlM_nil, List.nil_append]

/-- What the handlers hand on is what the first of their calls gets. -/
theorem runAreas_eq {h : Handlers}
    (harrived : arrived.foldlM (Handlers.each full order) { shared := some s } = some h) :
    runAreas full order s arrived = h.completed.head? := by
  induction arrived generalizing s with
  | nil =>
    cases harrived
    rfl
  | cons ips arrived ih =>
    rw [List.foldlM_cons] at harrived
    obtain ⟨h', hround, hrest⟩ := Option.bind_eq_some_iff.1 harrived
    rw [runAreas]
    simp only [Handlers.each, Option.bind_eq_bind, Option.bind_some, List.nil_append, Option.pure_def] at hround
    split at hround
    · cases hround
      -- the variables are deleted, so there is no result behind this one
      cases arrived with
      | nil =>
        cases hrest
        rw [if_pos ‹_›]
        rfl
      | cons next arrived => cases hrest
    · cases hround
      rw [if_neg ‹_›, ih hrest]

theorem dnsAreas_eq {calls : List (List Nat × Bool)} (h : areaCalls full order areas arrived = some calls) :
    dnsAreas full order areas arrived = calls.head? := by
  match areas with
  | [] | [_] =>
    cases h
    exact List.head?_map.symm
  | _ :: _ :: _ =>
    obtain ⟨handlers, hhandlers, rfl⟩ := Option.map_eq_some_iff.1 h
    exact runAreas_eq hhandlers

/-- What is to be handed on for some areas, given the result of each query. -/
structure Delivers (areas : List (Bytes × UInt16)) (results : List (List Nat)) (ips : List Nat) (loadAll : Bool) :
    Prop where
  /-- Without a second area it is the only result. -/
  few : areas.length < 2 → results = [ips] ∧ loadAll = true
  mem : ∀ ip, ip ∈ ips ↔ ∃ result ∈ results, ip ∈ result
  nodup : 2 ≤ areas.length → ips.Nodup
  all : 2 ≤ areas.length → (loadAll = true ↔ [] ∉ results)

/-- The flag is the same whatever the order. -/
theorem Delivers.loadAll_eq {ips ips' : List Nat} {loadAll loadAll' : Bool} (h : Delivers areas results ips loadAll)
    (h' : Delivers areas results ips' loadAll') : loadAll = loadAll' := by
  by_cases hlen : areas.length < 2
  · rw [(h.few hlen).2, (h'.few hlen).2]
  · rw [Bool.eq_iff_iff, h.all (Nat.le_of_not_lt hlen), h'.all (Nat.le_of_not_lt hlen)]

/-- There is no call before the last result, and one with it. -/
def LastCompletes (full : UInt16 → Bool) (order : List Nat → List Nat) (areas : List (Bytes × UInt16))
    (arrived results : List (List Nat)) : Prop :=
  (∀ n < arrived.length, areaCalls full order areas (arrived.take n) = some []) ∧
    ∃ ips loadAll, areaCalls full order areas arrived = some [(ips, loadAll)] ∧ Delivers areas results ips loadAll

/-- The calls for less than two areas. -/
theorem calls_few (hlen : areas.length < 2) (harrived : arrived.Perm results)
    (hresults : results.length = (queries areas).length) :
    LastCompletes full order areas arrived results := by
  have hmap : ∀ arrived, areaCalls full order areas arrived = some (arrived.map fun ips => (ips, true)) := by
    intro arrived
    match areas, hlen with
    | [], _ => rfl
    | [_], _ => rfl
  have hone : (queries areas).length = 1 := by
    match areas, hlen with
    | [], _ => rfl
    | [_], _ => rfl
  obtain ⟨ips, rfl⟩ := List.length_eq_one_iff.1 (hresults.trans hone)
  obtain rfl := List.perm_singleton.1 harrived
  refine ⟨fun n hn => ?_, ips, true, hmap [ips], fun _ => ⟨rfl, rfl⟩, fun ip => by simp, ?_, ?_⟩
  · rw [List.length_singleton, Nat.lt_one_iff] at hn
    rw [hn]
    exact hmap []
  · exact fun h => absurd hlen (Nat.not_lt.2 h)
  · exact fun h => absurd hlen (Nat.not_lt.2 h)

/-- The calls for two areas or more. -/
theorem calls_several (hlen : 2 ≤ areas.length) (hk : areas.length ≤ 65535) (hfull : Fills full areas.length)
    (horder : ∀ l, (order l).Perm l) (harrived : arrived.Perm results)
    (hresults : results.length = (queries areas).length) :
    LastCompletes full order areas arrived results := by
  have hcalls : ∀ arrived, areaCalls full order areas arrived =
      (arrived.foldlM (Handlers.each full order) {}).map Handlers.completed := by
    intro arrived
    match areas, hlen with
    | _ :: _ :: _, _ => rfl
  have hne : areas ≠ [] := by
    rintro rfl
    cases hlen
  rw [queries, if_neg hne] at hresults
  have harrivedLen := harrived.length_eq.trans hresults
  rcases List.eq_nil_or_concat' arrived with rfl | ⟨before, last, rfl⟩
  · rw [List.length_nil] at harrivedLen
    omega
  · rw [List.length_append, List.length_singleton] at harrivedLen
    obtain ⟨-, hall, hnodup, hmem⟩ := foldl_each (before ++ [last]) {} List.nodup_nil
    have hlast : areaCalls full order areas (before ++ [last]) =
        some [(order ((before ++ [last]).foldl AreaState.each {}).result,
          ((before ++ [last]).foldl AreaState.each {}).loadAll)] := by
      rw [hcalls, each_last hfull hk before last harrivedLen]
      rfl
    refine ⟨fun n hn => ?_, _, _, hlast, fun h => absurd hlen (Nat.not_le.2 h), fun ip => ?_, fun _ => ?_, fun _ => ?_⟩
    · rw [List.length_append, List.length_singleton] at hn
      rw [hcalls, each_before hfull hk _ (by rw [UInt16.toNat_zero, List.length_take]; omega)]
      rfl
    · rw [(horder _).mem_iff, hmem]
      simp only [List.not_mem_nil, false_or, harrived.mem_iff]
    · exact (horder _).nodup_iff.2 hnodup
    · rw [hall, harrived.mem_iff]
      exact and_iff_right rfl

/-- The calls for any areas. -/
theorem last_completes (hk : areas.length ≤ 65535) (hfull : Fills full areas.length) (horder : ∀ l, (order l).Perm l)
    (harrived : arrived.Perm results) (hresults : results.length = (queries areas).length) :
    LastCompletes full order areas arrived results := by
  by_cases hlen : areas.length < 2
  · exact calls_few hlen harrived hresults
  · exact calls_several (Nat.le_of_not_lt hlen) hk hfull horder harrived hresults

end Handling

section Orders

variable {areas : List (Bytes × UInt16)} {arrived arrived' results : List (List Nat)} {order : List Nat → List Nat}

/-- **The calls for several areas**: whatever the results of the queries and the orders in which they arrive over TCP
and over TLS, `complete_handler` is called once, when the last result has arrived, and gets the same set and the same
flag. -/
theorem completes_with_last (hk : areas.length ≤ 65535) (hresults : results.length = (queries areas).length)
    (harrived : arrived.Perm results) (harrived' : arrived'.Perm results) (horder : ∀ l, (order l).Perm l) :
    (∀ n < arrived.length, tcpDnsCalls areas (arrived.take n) = some []) ∧
    (∀ n < arrived'.length, tcpTlsDnsCalls order areas (arrived'.take n) = some []) ∧
    ∃ ips ips' loadAll, tcpDnsCalls areas arrived = some [(ips, loadAll)] ∧
      tcpTlsDnsCalls order areas arrived' = some [(ips', loadAll)] ∧
      Delivers areas results ips loadAll ∧ Delivers areas results ips' loadAll ∧ ∀ ip, ip ∈ ips ↔ ip ∈ ips' := by
  have htcp : Fills (fun counter => counter.toNat = areas.length) areas.length := fun counter _ => decide_eq_true_iff
  have htls : Fills (fun counter => areas.length ≤ counter.toNat) areas.length := by
    intro counter hle
    rw [decide_eq_true_iff]
    exact ⟨Nat.le_antisymm hle, Nat.le_of_eq ∘ Eq.symm⟩
  obtain ⟨hbefore, ips, loadAll, hlast, hdelivers⟩ :=
    last_completes hk htcp (fun l => List.mergeSort_perm l _) harrived hresults
  obtain ⟨hbefore', ips', loadAll', hlast', hdelivers'⟩ :=
    last_completes hk htls horder harrived' hresults
  obtain rfl := hdelivers.loadAll_eq hdelivers'
  refine ⟨hbefore, hbefore', ips, ips', loadAll, hlast, hlast', hdelivers, hdelivers', fun ip => ?_⟩
  rw [hdelivers.mem, hdelivers'.mem]

end Orders

/-- Three areas, one of which has no address. -/
theorem completes_with_last_at : ∃ ips ips' loadAll,
    tcpDnsCalls [([85, 83], 1), ([67, 78], 2), ([74, 80], 3)] [[2, 1], [], [3, 2]] = some [(ips, loadAll)] ∧
      tcpTlsDnsCalls List.reverse [([85, 83], 1), ([67, 78], 2), ([74, 80], 3)] [[], [3, 2], [2, 1]] =
        some [(ips', loadAll)] ∧ ∀ ip, ip ∈ ips ↔ ip ∈ ips' := by
  obtain ⟨-, -, ips, ips', loadAll, htcp, htls, -, -, hsame⟩ := @completes_with_last
    [([85, 83], 1), ([67, 78], 2), ([74, 80], 3)] [[2, 1], [], [3, 2]] [[], [3, 2], [2, 1]] [[2, 1], [], [3, 2]]
    List.reverse (by decide) rfl (List.Perm.refl _) (by decide) List.reverse_perm
  exact ⟨ips, ips', loadAll, htcp, htls, hsame⟩

end StDns.Client
