import StDns.Protocol.Fields
import StDns.Protocol.Response

/-!
# Parsers over more memory

A parser that stays inside a memory gives the same result over every memory that continues it: headers, names,
questions, records, and with them a whole response (`response_stable`) and a whole request (`request_stable`).
-/

namespace StDns.Protocol

open Lib

theorem header_stable (i len : Nat) : Stable fun m => DnsHeader.parse m i len := by
  unfold DnsHeader.parse
  refine Stable.ite ?_ (Stable.const _)
  refine Stable.bind (Stable.get i) fun _ _ _ => Stable.bind (Stable.get (i + 1)) fun _ _ _ => ?_
  refine Stable.bind (Stable.get (i + 2)) fun _ _ _ => Stable.bind (Stable.get (i + 3)) fun _ _ _ => ?_
  exact Stable.bind (read_stable _ 2) fun _ _ _ => Stable.bind (read_stable _ 2) fun _ _ _ => Stable.const _

theorem window_stable {w : Nat} (n b : Nat) (hw : w < 2 ^ 64) : Stable fun m => DnsDomain.ofWindow m n b w := by
  intro m m' r hm h
  obtain ⟨k, hk, rfl⟩ := Option.map_eq_some_iff.1 h
  have hs : parseDomain m' n b w [] = parseDomain m n b w [] := parseRe_stable hm _ hw (by
    rw [show parseRe m n parseLevels b w [] = parseDomain m n b w [] from rfl, hk]; simp)
  exact Option.map_eq_some_iff.2 ⟨k, by rw [hs]; exact hk, by rw [hs]⟩

theorem query_stable (i len : Nat) : Stable fun m => DnsQuery.parse m i len := by
  unfold DnsQuery.parse
  have hdom : Stable fun m => DnsDomain.parse m i (u32 len) := by
    intro m m' r hm h
    have hlt : u32 len < 2 ^ 64 := Nat.lt_trans (Nat.mod_lt _ (by decide)) (by decide)
    obtain ⟨k, hk, rfl⟩ := Option.map_eq_some_iff.1 h
    have hs : parseDomain (m'.drop i) (u32 len) 0 (u32 len) [] = parseDomain (m.drop i) (u32 len) 0 (u32 len) [] :=
      parseRe_stable (hm.drop i) _ hlt (by
        rw [show parseRe _ _ parseLevels 0 _ [] = parseDomain (m.drop i) (u32 len) 0 (u32 len) [] from rfl, hk]; simp)
    exact Option.map_eq_some_iff.2 ⟨k, by rw [hs]; exact hk, by rw [hs]⟩
  refine Stable.bind hdom fun _ dnsDomain _ => Stable.ite ?_ (Stable.const _)
  exact Stable.bind (read_stable _ 2) fun _ _ _ => Stable.const _

theorem zone_stable (start len size : Nat) : Stable fun m => DnsQueryZone.ofBytes m start len size := by
  unfold DnsQueryZone.ofBytes
  refine Stable.loop _ (fun m => zone_descends) ?_ _
  intro m m' c r hm hr hne
  unfold zoneRound at hr ⊢
  split at hr
  · rename_i hgo
    rw [if_pos hgo]
    split at hr
    · exact absurd hr.symm hne
    · rename_i q hq
      have hq' : DnsQuery.parse m' c.data len = some q := query_stable _ _ m m' q hm hq
      rw [hq']
      exact hr
  · rename_i hgo
    rw [if_neg hgo]
    exact hr

theorem readIpv4s_stable (i k : Nat) : Stable fun m => readIpv4s m i k :=
  Stable.mapM (fun j => read_stable (i + j * 4) 4) (List.range k)

theorem record_stable (n i : Nat) : Stable fun m => DnsResourceZone.ofRest m n i := by
  unfold DnsResourceZone.ofRest
  refine Stable.bind (window_stable n i (sub64_lt n i)) fun _ domain _ => Stable.ite ?_ (Stable.const _)
  refine Stable.bind (read_stable _ 2) fun _ type _ => Stable.bind (read_stable _ 2) fun _ _ _ => ?_
  refine Stable.bind (read_stable _ 4) fun _ _ _ => Stable.bind (read_stable _ 2) fun m length hl => Stable.ite ?_ ?_
  · have hlt := read_lt (by decide) hl
    exact Stable.bind (window_stable n _ (by omega)) fun _ _ _ => Stable.const _
  · exact Stable.ite (Stable.bind (readIpv4s_stable _ _) fun _ _ _ => Stable.const _) (Stable.const _)

theorem answers_stable (n count : Nat) (c : ParseCursor) : Stable fun m => parseAnswers m n count c := by
  unfold parseAnswers
  refine Stable.loop _ (fun m => answers_descend) ?_ _
  intro m m' c r hm hr hne
  unfold answerRound at hr ⊢
  split at hr
  · rename_i hgo
    rw [if_pos hgo]
    split at hr
    · exact absurd hr.symm hne
    · rename_i a ha
      have ha' : DnsResourceZone.ofRest m' n (sub64 n c.restUnParseSize) = some a := record_stable _ _ m m' a hm ha
      rw [ha']
      exact hr
  · rename_i hgo
    rw [if_neg hgo]
    exact hr

/-- **A response** that is parsed inside a memory is parsed alike over every memory that continues it. -/
theorem response_stable {n : Nat} (hn : n < 2 ^ 64) : Stable fun m => UdpResponse.parse m n := by
  by_cases h12 : DnsHeader.defaultLen < n
  · simp only [UdpResponse.parse_eq h12 hn]
    refine Stable.bind (header_stable 0 _) fun _ head _ => ?_
    cases head with
    | none => exact Stable.const _
    | some header =>
      refine Stable.ite ?_ (Stable.const _)
      refine Stable.bind (zone_stable _ _ _) fun _ zone _ => Stable.ite ?_ (Stable.const _)
      exact Stable.map _ (answers_stable n _ _)
  · unfold UdpResponse.parse
    simp only [if_neg h12]
    exact Stable.const _

/-- **A request** that is parsed inside a memory is parsed alike over every memory that continues it. -/
theorem request_stable (n : Nat) : Stable fun m => UdpRequest.parse m n := by
  unfold UdpRequest.parse
  refine Stable.ite (Stable.bind (header_stable 0 _) fun _ head _ => ?_) (Stable.const _)
  cases head with
  | none => exact Stable.const _
  | some header =>
    refine Stable.bind (zone_stable _ _ _) fun _ zone _ => Stable.ite ?_ (Stable.const _)
    exact Stable.ite (Stable.const _) (Stable.const _)

end StDns.Protocol
