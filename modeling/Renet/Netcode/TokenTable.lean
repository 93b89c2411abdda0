import Renet.Netcode.Handshake
import Renet.Data.Slots
import Mathlib.Data.List.Nodup

/-!
# The connect token table

What `find_or_add_connect_token_entry` is for: the table binds the MAC of each connect token it
has seen to the address that first used it, so a token is refused from a second address while
its entry stays, and a new MAC takes the first empty entry or, in a full table, one of the
oldest. The loop computes three things in one pass: the last entry with the new MAC, the first
empty entry, and before that the first entry of least time. `ScanInv` says what the loop
variables hold after a prefix of the table; one loop step keeps it (`ScanInv.step`), so the
whole loop does (`scanInv_scanEntries`).

Entry times are `Duration`s, which never pass `Duration::MAX`: `TimesBounded` says so of the
table, and it is what lets the loop's start `min = Duration::MAX` stand for an entry of least
time in a table whose entries are all that old.

## Main definitions

* `Renetcode.TokenTable.MacsNodup`, `TokenTable.TimesBounded`, `TokenTable.WF`.
* `Renetcode.TokenTable.FindOrAddSpec`: what one call returns and writes.
* `Renetcode.NetcodeServer.addConnectTokenEntries`: a sequence of calls.

## Main results

* `NetcodeServer.findOrAddSpec_of_wf`: a call on a well-formed table meets its spec, and the
  table stays well formed (`NetcodeServer.wf_findOrAddConnectTokenEntry`).
* `NetcodeServer.wf_addConnectTokenEntries`: so does every sequence of calls from the table
  `NetcodeServer::new` builds (`NetcodeServer.wf_new`).
-/

namespace Renetcode

namespace TokenTable

/-- No two entries of the table have the same MAC. -/
def MacsNodup (table : List (Option ConnectTokenEntry)) : Prop :=
  (table.reduceOption.map ConnectTokenEntry.mac).Nodup

/-- Every entry's time is a `Duration`, at most `Duration::MAX`. -/
def TimesBounded (table : List (Option ConnectTokenEntry)) : Prop :=
  ∀ e ∈ table.reduceOption, e.time ≤ durationMax

/-- The tables `NetcodeServer::new` starts and the calls keep: `NETCODE_MAX_CLIENTS * 2`
entries, of distinct MACs and bounded times. -/
structure WF (table : List (Option ConnectTokenEntry)) : Prop where
  length_eq : table.length = netcodeMaxClients * 2
  macsNodup : MacsNodup table
  timesBounded : TimesBounded table

/-- Entry `i` holds an entry of least time. -/
def IsOldest (table : List (Option ConnectTokenEntry)) (i : Nat) : Prop :=
  ∃ e, table[i]? = some (some e) ∧ ∀ e' ∈ table.reduceOption, e.time ≤ e'.time

/-- The loop's least time and its entry, over the entries `seen` when none is empty: the start
`Duration::MAX` at entry `0` while no entry is younger, or an entry of that least time. -/
def OldestSoFar (seen : List (Option ConnectTokenEntry)) (scan : EntryScan) : Prop :=
  (∀ e ∈ seen.reduceOption, scan.min ≤ e.time) ∧
    ((scan.min = durationMax ∧ scan.oldestEntry = 0) ∨
      ∃ e, seen[scan.oldestEntry]? = some (some e) ∧ e.time = scan.min)

/-- The loop variables after the entries `seen`. -/
structure ScanInv (newEntry : ConnectTokenEntry) (seen : List (Option ConnectTokenEntry))
    (scan : EntryScan) : Prop where
  matching : scan.matchingEntry =
    (seen.reduceOption.filter fun e => decide (e.mac = newEntry.mac)).getLast?
  empty : scan.emptyEntry = seen.any Option.isNone
  firstEmpty : scan.emptyEntry = true → seen.findIdx? Option.isNone = some scan.oldestEntry
  oldest : scan.emptyEntry = false → OldestSoFar seen scan

/-- What one call of `find_or_add_connect_token_entry` returns and does to the table: `false`
exactly when an entry has the new MAC and another address, and then nothing changes; a new MAC
is written into the first empty entry, or into an entry of least time of a full table, and no
other entry changes. -/
structure FindOrAddSpec (server : NetcodeServer) (newEntry : ConnectTokenEntry) : Prop where
  eq_false_iff : (server.findOrAddConnectTokenEntry newEntry).2 = false ↔
    ∃ e ∈ server.connectTokenEntries.reduceOption, e.mac = newEntry.mac ∧
      e.address ≠ newEntry.address
  of_false : (server.findOrAddConnectTokenEntry newEntry).2 = false →
    (server.findOrAddConnectTokenEntry newEntry).1 = server
  of_fresh : (∀ e ∈ server.connectTokenEntries.reduceOption, e.mac ≠ newEntry.mac) →
    ∃ i < server.connectTokenEntries.length,
      server.findOrAddConnectTokenEntry newEntry =
        ({ server with connectTokenEntries := server.connectTokenEntries.set i (some newEntry) },
          true) ∧
      (server.connectTokenEntries.any Option.isNone = true →
        server.connectTokenEntries.findIdx? Option.isNone = some i) ∧
      (server.connectTokenEntries.any Option.isNone = false →
        IsOldest server.connectTokenEntries i)

variable {newEntry : ConnectTokenEntry}

/-! ### The loop -/

theorem scanInv_nil (newEntry : ConnectTokenEntry) :
    ScanInv newEntry [] ⟨durationMax, 0, false, none⟩ where
  matching := rfl
  empty := rfl
  firstEmpty h := absurd h (by decide)
  oldest _ := ⟨by simp, .inl ⟨rfl, rfl⟩⟩

/-- An empty entry: the first one becomes the loop's target, and the least time is no longer
looked for. -/
theorem ScanInv.step_none {seen : List (Option ConnectTokenEntry)} {scan : EntryScan}
    (h : ScanInv newEntry seen scan) :
    ScanInv newEntry (seen ++ [none]) (scanEntry newEntry scan seen.length none) := by
  have hreduce : (seen ++ [none]).reduceOption = seen.reduceOption := by
    simp [List.reduceOption_append]
  cases hempty : scan.emptyEntry with
  | false =>
    -- no empty entry before: this one is the first
    have hno : seen.findIdx? Option.isNone = none := by
      rw [List.findIdx?_eq_none_iff]
      intro x hx
      have hany := h.empty
      rw [hempty, eq_comm, List.any_eq_false] at hany
      exact Bool.eq_false_iff.mpr (hany x hx)
    refine ⟨?_, ?_, fun _ => ?_, fun h' => ?_⟩
    · simp only [scanEntry, hempty, Bool.not_false, if_true, hreduce]
      exact h.matching
    · simp [scanEntry, hempty]
    · simp [scanEntry, hempty, List.findIdx?_append, hno]
    · simp [scanEntry, hempty] at h'
  | true =>
    refine ⟨?_, ?_, fun _ => ?_, fun h' => ?_⟩
    · simp only [scanEntry, hempty, Bool.not_true, hreduce]
      exact h.matching
    · simp only [scanEntry, hempty, Bool.not_true, Bool.false_eq_true, if_false]
      rw [List.any_append, ← h.empty, hempty, Bool.true_or]
    · simp only [scanEntry, hempty, Bool.not_true, Bool.false_eq_true, if_false]
      rw [List.findIdx?_append, h.firstEmpty hempty, Option.some_or]
    · simp [scanEntry, hempty] at h'

/-- A full entry: remembered when it has the new MAC, and taken as the oldest when it is younger
than all before it and no empty entry has been seen. -/
theorem ScanInv.step_some {seen : List (Option ConnectTokenEntry)} {scan : EntryScan}
    (h : ScanInv newEntry seen scan) (e : ConnectTokenEntry) :
    ScanInv newEntry (seen ++ [some e]) (scanEntry newEntry scan seen.length (some e)) := by
  have hreduce : (seen ++ [some e]).reduceOption = seen.reduceOption ++ [e] := by
    simp [List.reduceOption_append]
  -- the MAC test changes only `matching_entry`
  set scan₁ := if e.mac = newEntry.mac then { scan with matchingEntry := some e } else scan
    with hscan₁
  have hmatching₁ : scan₁.matchingEntry =
      ((seen ++ [some e]).reduceOption.filter fun e => decide (e.mac = newEntry.mac)).getLast? := by
    rw [hreduce, List.filter_append]
    by_cases hmac : e.mac = newEntry.mac
    · simp [hscan₁, hmac]
    · simp [hscan₁, hmac, h.matching]
  have hrest : scan₁.emptyEntry = scan.emptyEntry ∧ scan₁.min = scan.min ∧
      scan₁.oldestEntry = scan.oldestEntry := by
    rw [hscan₁]
    split <;> exact ⟨rfl, rfl, rfl⟩
  obtain ⟨hempty₁, hmin₁, holdest₁⟩ := hrest
  have hstep : scanEntry newEntry scan seen.length (some e) =
      if !scan₁.emptyEntry && decide (e.time < scan₁.min) then
        { scan₁ with oldestEntry := seen.length, min := e.time }
      else scan₁ := rfl
  have hany : (seen ++ [some e]).any Option.isNone = seen.any Option.isNone := by
    simp [List.any_append]
  rw [hstep]
  cases hempty : scan.emptyEntry with
  | true =>
    -- an empty entry was seen: only the MAC test acts
    have hif : (!scan₁.emptyEntry && decide (e.time < scan₁.min)) = false := by
      rw [hempty₁, hempty]
      rfl
    rw [hif, if_neg Bool.false_ne_true]
    refine ⟨hmatching₁, ?_, fun _ => ?_, fun h' => ?_⟩
    · rw [hempty₁, hany, h.empty]
    · rw [holdest₁, List.findIdx?_append, h.firstEmpty hempty, Option.some_or]
    · rw [hempty₁, hempty] at h'
      exact absurd h' (by decide)
  | false =>
    obtain ⟨hle, hwitness⟩ := h.oldest hempty
    have hsmaller : ∀ e' ∈ (seen ++ [some e]).reduceOption, min scan.min e.time ≤ e'.time := by
      intro e' he'
      rw [hreduce, List.mem_append, List.mem_singleton] at he'
      rcases he' with he' | rfl
      · exact (min_le_left _ _).trans (hle e' he')
      · exact min_le_right _ _
    by_cases hlt : e.time < scan.min
    · -- a younger entry: it becomes the oldest, at index `seen.length`
      have hif : (!scan₁.emptyEntry && decide (e.time < scan₁.min)) = true := by
        rw [hempty₁, hempty, hmin₁]
        simp [hlt]
      rw [hif, if_pos rfl]
      refine ⟨hmatching₁, ?_, fun h' => ?_, fun _ => ⟨fun e' he' => ?_, .inr ⟨e, ?_, rfl⟩⟩⟩
      · show scan₁.emptyEntry = _
        rw [hempty₁, hany, h.empty]
      · change scan₁.emptyEntry = true at h'
        rw [hempty₁, hempty] at h'
        exact absurd h' (by decide)
      · have := hsmaller e' he'
        rw [min_eq_right hlt.le] at this
        exact this
      · simp
    · have hif : (!scan₁.emptyEntry && decide (e.time < scan₁.min)) = false := by
        rw [hempty₁, hempty, hmin₁]
        simp [hlt]
      rw [hif, if_neg Bool.false_ne_true]
      refine ⟨hmatching₁, ?_, fun h' => ?_, fun _ => ⟨fun e' he' => ?_, ?_⟩⟩
      · rw [hempty₁, hany, h.empty]
      · rw [hempty₁, hempty] at h'
        exact absurd h' (by decide)
      · have := hsmaller e' he'
        rw [min_eq_left (not_lt.mp hlt)] at this
        rw [hmin₁]
        exact this
      · rw [hmin₁, holdest₁]
        rcases hwitness with hstart | ⟨e', he', htime⟩
        · exact .inl hstart
        · refine .inr ⟨e', ?_, htime⟩
          rw [List.getElem?_append_left (List.getElem?_eq_some_iff.mp he').1]
          exact he'

theorem ScanInv.step {seen : List (Option ConnectTokenEntry)} {scan : EntryScan}
    (h : ScanInv newEntry seen scan) (x : Option ConnectTokenEntry) :
    ScanInv newEntry (seen ++ [x]) (scanEntry newEntry scan seen.length x) := by
  cases x with
  | none => exact h.step_none
  | some e => exact h.step_some e

/-- The loop from entry `seen.length` on: induction on the entries left, with the prefix
growing. -/
theorem scanInv_scanEntries {seen : List (Option ConnectTokenEntry)} {scan : EntryScan}
    (h : ScanInv newEntry seen scan) (rest : List (Option ConnectTokenEntry)) :
    ScanInv newEntry (seen ++ rest) (scanEntries newEntry scan seen.length rest) := by
  induction rest generalizing seen scan with
  | nil =>
    rw [List.append_nil]
    exact h
  | cons x rest ih =>
    have hstep := ih (h.step x)
    rw [List.append_assoc, List.singleton_append, List.length_append, List.length_singleton]
      at hstep
    exact hstep

/-- The whole loop over a table. -/
theorem scanInv_table (newEntry : ConnectTokenEntry) (table : List (Option ConnectTokenEntry)) :
    ScanInv newEntry table (scanEntries newEntry ⟨durationMax, 0, false, none⟩ 0 table) := by
  have h := scanInv_scanEntries (scanInv_nil newEntry) table
  rw [List.nil_append] at h
  exact h

/-! ### What the loop variables say of the table -/

/-- With distinct MACs, the last entry with the new MAC is the only one. -/
theorem eq_of_getLast?_filter {table : List (Option ConnectTokenEntry)}
    (hnodup : MacsNodup table) {e e' : ConnectTokenEntry}
    (hlast : (table.reduceOption.filter fun e => decide (e.mac = newEntry.mac)).getLast? =
      some e)
    (he' : e' ∈ table.reduceOption) (hmac : e'.mac = newEntry.mac) : e' = e := by
  have hmem := List.mem_of_getLast? hlast
  rw [List.mem_filter, decide_eq_true_iff] at hmem
  exact List.inj_on_of_nodup_map hnodup he' hmem.1 (hmac.trans hmem.2.symm)

/-- Without an empty entry, the loop's target holds an entry of least time. -/
theorem isOldest_of_oldestSoFar {table : List (Option ConnectTokenEntry)} {scan : EntryScan}
    (htimes : TimesBounded table) (hne : table ≠ [])
    (hfull : table.any Option.isNone = false) (h : OldestSoFar table scan) :
    IsOldest table scan.oldestEntry := by
  obtain ⟨hle, hstart | ⟨e, he, htime⟩⟩ := h
  · -- no entry is younger than `Duration::MAX`: all are that old, the first one included
    obtain ⟨hmin, hzero⟩ := hstart
    obtain ⟨x, rest, rfl⟩ := List.exists_cons_of_ne_nil hne
    have hsome : x.isSome := by
      rw [List.any_eq_false] at hfull
      exact Option.isSome_iff_ne_none.mpr (by simpa using hfull x List.mem_cons_self)
    obtain ⟨e, rfl⟩ := Option.isSome_iff_exists.mp hsome
    have he : e ∈ (some e :: rest).reduceOption := by simp [List.reduceOption_cons_of_some]
    refine ⟨e, by rw [hzero]; rfl, fun e' he' => ?_⟩
    calc e.time ≤ durationMax := htimes e he
      _ = scan.min := hmin.symm
      _ ≤ e'.time := hle e' he'
  · exact ⟨e, he, fun e' he' => htime ▸ hle e' he'⟩

end TokenTable

namespace NetcodeServer

open TokenTable

variable {newEntry : ConnectTokenEntry}

/-- A sequence of `find_or_add_connect_token_entry` calls, whatever each returns. -/
def addConnectTokenEntries (server : NetcodeServer) (calls : List ConnectTokenEntry) :
    NetcodeServer :=
  calls.foldl (fun server newEntry => (server.findOrAddConnectTokenEntry newEntry).1) server

/-- The loop of `find_or_add_connect_token_entry` over the server's table. -/
def entryScan (server : NetcodeServer) (newEntry : ConnectTokenEntry) : EntryScan :=
  scanEntries newEntry ⟨durationMax, 0, false, none⟩ 0 server.connectTokenEntries

theorem scanInv_entryScan (server : NetcodeServer) (newEntry : ConnectTokenEntry) :
    ScanInv newEntry server.connectTokenEntries (server.entryScan newEntry) :=
  scanInv_table newEntry server.connectTokenEntries

/-- An entry has the new MAC: the answer is whether its address is the new one. -/
theorem findOrAddConnectTokenEntry_of_matching {server : NetcodeServer}
    {entry : ConnectTokenEntry} (h : (server.entryScan newEntry).matchingEntry = some entry) :
    server.findOrAddConnectTokenEntry newEntry =
      (server, decide (entry.address = newEntry.address)) := by
  unfold findOrAddConnectTokenEntry
  dsimp only
  rw [show (scanEntries newEntry ⟨durationMax, 0, false, none⟩ 0
    server.connectTokenEntries).matchingEntry = some entry from h]

/-- No entry has the new MAC: it is written where the loop stopped. -/
theorem findOrAddConnectTokenEntry_of_no_matching {server : NetcodeServer}
    (h : (server.entryScan newEntry).matchingEntry = none) :
    server.findOrAddConnectTokenEntry newEntry =
      ({ server with
        connectTokenEntries :=
          server.connectTokenEntries.set (server.entryScan newEntry).oldestEntry (some newEntry) },
        true) := by
  unfold findOrAddConnectTokenEntry
  dsimp only
  rw [show (scanEntries newEntry ⟨durationMax, 0, false, none⟩ 0
    server.connectTokenEntries).matchingEntry = none from h]
  rfl

/-- The loop remembers an entry exactly when one has the new MAC. -/
theorem matchingEntry_eq_none_iff (server : NetcodeServer) :
    (server.entryScan newEntry).matchingEntry = none ↔
      ∀ e ∈ server.connectTokenEntries.reduceOption, e.mac ≠ newEntry.mac := by
  rw [(scanInv_entryScan server newEntry).matching, List.getLast?_eq_none_iff,
    List.filter_eq_nil_iff]
  simp

/-- A call on a well-formed table meets its spec. -/
theorem findOrAddSpec_of_wf {server : NetcodeServer} (hwf : WF server.connectTokenEntries)
    (newEntry : ConnectTokenEntry) : FindOrAddSpec server newEntry := by
  have hscan := scanInv_entryScan server newEntry
  have hne : server.connectTokenEntries ≠ [] := by
    intro h
    have hlen := hwf.length_eq
    rw [h] at hlen
    exact absurd hlen (by decide)
  cases hmatch : (server.entryScan newEntry).matchingEntry with
  | some entry =>
    -- an entry has the new MAC: it is the one the loop remembered
    have hlast := hscan.matching
    rw [hmatch, eq_comm] at hlast
    have hentry := List.mem_of_getLast? hlast
    rw [List.mem_filter, decide_eq_true_iff] at hentry
    have hcall := findOrAddConnectTokenEntry_of_matching hmatch
    refine ⟨?_, fun _ => by rw [hcall], fun hfresh => absurd hentry.2 (hfresh entry hentry.1)⟩
    rw [hcall]
    constructor
    · intro h
      exact ⟨entry, hentry.1, hentry.2, of_decide_eq_false h⟩
    · rintro ⟨e, he, hmac, haddr⟩
      rw [eq_of_getLast?_filter hwf.macsNodup hlast he hmac] at haddr
      exact decide_eq_false haddr
  | none =>
    -- no entry has the new MAC: the loop's target is overwritten
    have hfresh := (matchingEntry_eq_none_iff server).mp hmatch
    have hcall := findOrAddConnectTokenEntry_of_no_matching hmatch
    refine ⟨?_, fun h => ?_, fun _ => ⟨(server.entryScan newEntry).oldestEntry, ?_, hcall, ?_, ?_⟩⟩
    · rw [hcall]
      constructor
      · intro h
        exact Bool.noConfusion h
      · rintro ⟨e, he, hmac, -⟩
        exact absurd hmac (hfresh e he)
    · rw [hcall] at h
      exact Bool.noConfusion h
    · cases hempty : (server.entryScan newEntry).emptyEntry with
      | true =>
        exact (List.findIdx?_eq_some_iff_findIdx_eq.mp (hscan.firstEmpty hempty)).1
      | false =>
        have hfull : server.connectTokenEntries.any Option.isNone = false := by
          rw [← hscan.empty, hempty]
        obtain ⟨e, he, -⟩ := isOldest_of_oldestSoFar hwf.timesBounded hne hfull
          (hscan.oldest hempty)
        exact (List.getElem?_eq_some_iff.mp he).1
    · intro hany
      rw [← hscan.empty] at hany
      exact hscan.firstEmpty hany
    · intro hfull
      have hempty : (server.entryScan newEntry).emptyEntry = false := by
        rw [hscan.empty, hfull]
      exact isOldest_of_oldestSoFar hwf.timesBounded hne hfull (hscan.oldest hempty)

/-- A call keeps the table well formed, for a new entry whose time is a `Duration`. -/
theorem wf_findOrAddConnectTokenEntry {server : NetcodeServer}
    (hwf : WF server.connectTokenEntries) (htime : newEntry.time ≤ durationMax) :
    WF (server.findOrAddConnectTokenEntry newEntry).1.connectTokenEntries := by
  cases hmatch : (server.entryScan newEntry).matchingEntry with
  | some entry =>
    -- an entry has the new MAC: the call changes nothing, whatever it returns
    rw [findOrAddConnectTokenEntry_of_matching hmatch]
    exact hwf
  | none =>
    have hfresh := (matchingEntry_eq_none_iff server).mp hmatch
    rw [findOrAddConnectTokenEntry_of_no_matching hmatch]
    refine ⟨?_, ?_, fun e he => ?_⟩
    · rw [List.length_set]
      exact hwf.length_eq
    · exact Slots.nodup_map_reduceOption_set hwf.macsNodup hfresh _
    · rcases Slots.mem_reduceOption_set he with rfl | he
      · exact htime
      · exact hwf.timesBounded e he

/-- `NetcodeServer::new` starts with an empty table. -/
theorem wf_new {config : ServerConfig} {challengeKey : Bytes} {server : NetcodeServer}
    (hnew : NetcodeServer.new config challengeKey = .ok server) :
    WF server.connectTokenEntries := by
  unfold NetcodeServer.new at hnew
  by_cases hmax : config.maxClients ≤ netcodeMaxClients
  · rw [Outcome.assert_of_pos hmax, Outcome.ok_bind] at hnew
    cases hnew
    refine ⟨List.length_replicate, ?_, ?_⟩
    · rw [MacsNodup, List.reduceOption_replicate_none]
      exact List.nodup_nil
    · intro e he
      rw [List.reduceOption_replicate_none] at he
      exact absurd he List.not_mem_nil
  · rw [Outcome.assert_of_neg hmax] at hnew
    cases hnew

/-- A sequence of calls keeps the table well formed: induction on the calls, each kept by
`wf_findOrAddConnectTokenEntry`. -/
theorem wf_addConnectTokenEntries {server : NetcodeServer} (hwf : WF server.connectTokenEntries)
    {calls : List ConnectTokenEntry} (hcalls : ∀ c ∈ calls, c.time ≤ durationMax) :
    WF (server.addConnectTokenEntries calls).connectTokenEntries := by
  induction calls generalizing server with
  | nil => exact hwf
  | cons c calls ih =>
    exact ih (wf_findOrAddConnectTokenEntry hwf (hcalls c List.mem_cons_self))
      (fun c' hc' => hcalls c' (List.mem_cons_of_mem _ hc'))

/-- From the table `new` builds, whatever sequence of calls has run, the MACs in the table are
distinct and the next call meets its spec. The calls' times are `Duration`s. -/
theorem addConnectTokenEntries_findOrAddSpec {config : ServerConfig} {challengeKey : Bytes}
    {server₀ : NetcodeServer} (hnew : NetcodeServer.new config challengeKey = .ok server₀)
    (calls : List ConnectTokenEntry) (hcalls : ∀ c ∈ calls, c.time ≤ durationMax)
    (newEntry : ConnectTokenEntry) :
    MacsNodup (server₀.addConnectTokenEntries calls).connectTokenEntries ∧
      FindOrAddSpec (server₀.addConnectTokenEntries calls) newEntry := by
  have hwf := wf_addConnectTokenEntries (wf_new hnew) hcalls
  exact ⟨hwf.macsNodup, findOrAddSpec_of_wf hwf newEntry⟩

/-- The tests' server after one entry from the client address, asked for a second. -/
theorem addConnectTokenEntries_findOrAddSpec_testServer :
    MacsNodup ((testServer []).addConnectTokenEntries
      [⟨0, testClientAddress, []⟩]).connectTokenEntries ∧
      FindOrAddSpec ((testServer []).addConnectTokenEntries [⟨0, testClientAddress, []⟩])
        ⟨0, testServerAddress, []⟩ :=
  addConnectTokenEntries_findOrAddSpec (new_testServerConfig []) [⟨0, testClientAddress, []⟩]
    (by simp [durationMax]) ⟨0, testServerAddress, []⟩

end NetcodeServer

end Renetcode
