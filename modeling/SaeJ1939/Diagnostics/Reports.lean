/-
  SaeJ1939.Diagnostics.Reports — what a tool reads from a fault log.

  The log encodes its active codes as DM1 and its history as DM2; a tool
  parses the bytes, and a service tool drops the placeholders.  Two codes
  mean "nothing to report", and the log accepts faults of that name.

  Main results:
    * `readsBack_iff` — a message is read as it was meant exactly if no
      code in it is a placeholder.
    * `reported_always_iff` — along a run, a tool always reads what the
      log holds exactly if every placeholder raised meets a full log.
    * `placeholder_reads_healthy` — a live fault that reads as health.
-/
import SaeJ1939.Diagnostics.FaultLog

namespace SaeJ1939.Diagnostics

open Machine

/-! ## §1. The service tool. -/

/-- A fault list read from another ECU (`ecu.rs`). -/
structure FaultReport where
  lamps : Lamps
  dtcs : List Dtc
  deriving Repr, DecidableEq

namespace FaultReport

def isHealthy (r : FaultReport) : Bool := r.dtcs.isEmpty

/-- The placeholders are filtered out. -/
def parse (payload : List UInt8) : Result FaultReport := do
  let dm ← Message.parse payload
  return ⟨dm.lamps, dm.dtcs.filter fun dtc => !dtc.isNoFault⟩

end FaultReport

/-! ## §2. Reading a message back. -/

/-- The bytes an encoder writes, for every large enough buffer, are read
as these codes and lamps. -/
def ReadsBack (dm : List UInt8 → Result Nat × List UInt8) (len : Nat) (codes : List Dtc)
    (lamps : Lamps) : Prop :=
  ∀ out : List UInt8, len ≤ out.length → ∃ m report,
    (dm out).1 = .ok len
    ∧ Message.parse ((dm out).2.take len) = .ok m
    ∧ (codes ≠ [] → m.dtcs = codes)
    ∧ (m.isFaultFree = true ↔ codes = [])
    ∧ m.lamps = lamps
    ∧ FaultReport.parse ((dm out).2.take len) = .ok report
    ∧ report.dtcs = codes

/-- How both lists of a log are encoded: an empty one as the all-zero
code. -/
def encodeList (lamps : Lamps) (codes : List Dtc) (out : List UInt8) : Result Nat × List UInt8 :=
  if codes.length = 0 then encode lamps [Dtc.default] out else encode lamps codes out

theorem encodedLen_eq_payloadLen {n : Nat} (h : n ≠ 0) : encodedLen n = payloadLen n := by
  unfold encodedLen payloadLen lampLen dtcLen
  rw [if_neg h]
  dsimp only
  by_cases h₁ : n ≤ 1
  · rw [if_pos h₁]
    split <;> omega
  · rw [if_neg h₁, if_neg (by omega)]

/-- What is on the wire for a list of codes, parsed. -/
theorem parse_encodeList (lamps : Lamps) {codes : List Dtc} (hrange : ∀ d ∈ codes, d.InRange)
    {out : List UInt8} (hlen : payloadLen codes.length ≤ out.length) :
    ∃ m, (encodeList lamps codes out).1 = .ok (payloadLen codes.length)
      ∧ Message.parse ((encodeList lamps codes out).2.take (payloadLen codes.length)) = .ok m
      ∧ m.lamps = lamps
      ∧ m.dtcs = if codes = [] then [Dtc.default] else codes := by
  -- the codes that are encoded, and their length
  have hsent : ∃ sent : List Dtc, sent ≠ [] ∧ (∀ d ∈ sent, d.InRange)
      ∧ encodeList lamps codes out = encode lamps sent out
      ∧ encodedLen sent.length = payloadLen codes.length
      ∧ sent = if codes = [] then [Dtc.default] else codes := by
    by_cases hnil : codes = []
    · subst hnil
      refine ⟨[Dtc.default], List.cons_ne_nil _ _, ?_, rfl, rfl, (if_pos rfl).symm⟩
      intro d hd
      rw [List.mem_singleton.mp hd]
      decide
    · have hpos : codes.length ≠ 0 := fun h => hnil (List.length_eq_zero_iff.mp h)
      exact ⟨codes, hnil, hrange, if_neg hpos, encodedLen_eq_payloadLen hpos, (if_neg hnil).symm⟩
  obtain ⟨sent, hne, hsrange, heq, hslen, hsentIs⟩ := hsent
  obtain ⟨m, hparse, hlamps, hdtcs⟩ := parse_payload lamps hne hsrange
  have hok := encode_ok lamps sent (hslen.symm ▸ hlen)
  rw [hslen] at hok
  have hprefix : (payload lamps sent).length = payloadLen codes.length := by
    rw [length_payload, hslen]
  refine ⟨m, ?_, ?_, hlamps, hdtcs.trans hsentIs⟩
  · rw [heq, hok]
  · rw [heq, hok]
    show Message.parse ((payload lamps sent ++ out.drop (payloadLen codes.length)).take
      (payloadLen codes.length)) = .ok m
    rw [← hprefix, List.take_left]
    exact hparse

/-- **A message is read as it was meant exactly if no code in it is a
placeholder.** -/
theorem readsBack_iff (lamps : Lamps) {codes : List Dtc} (hrange : ∀ d ∈ codes, d.InRange) :
    ReadsBack (encodeList lamps codes) (payloadLen codes.length) codes lamps
      ↔ ∀ d ∈ codes, d.isNoFault = false := by
  constructor
  · -- the service tool never lists a placeholder
    intro h d hd
    obtain ⟨m, report, -, hm, -, -, -, hreport, hcodes⟩ :=
      h (List.replicate (payloadLen codes.length) 0) (by rw [List.length_replicate])
    unfold FaultReport.parse at hreport
    rw [hm] at hreport
    injection hreport with hreport
    rw [← hcodes, ← hreport] at hd
    simpa using (List.mem_filter.mp hd).2
  · intro hreal out hlen
    obtain ⟨m, hok, hm, hlamps, hdtcs⟩ := parse_encodeList lamps hrange hlen
    refine ⟨m, ⟨m.lamps, m.dtcs.filter fun dtc => !dtc.isNoFault⟩, hok, hm, ?_, ?_, hlamps, ?_, ?_⟩
    · intro hne
      rw [hdtcs, if_neg hne]
    · unfold Message.isFaultFree
      rw [hdtcs]
      cases codes with
      | nil => exact iff_of_true rfl rfl
      | cons first rest =>
        rw [if_neg (List.cons_ne_nil _ _)]
        show (first.isNoFault && rest.isEmpty) = true ↔ _
        rw [hreal first List.mem_cons_self]
        exact iff_of_false Bool.false_ne_true (List.cons_ne_nil _ _)
    · unfold FaultReport.parse
      rw [hm]
      rfl
    · show m.dtcs.filter _ = codes
      rw [hdtcs]
      cases codes with
      | nil => rfl
      | cons first rest =>
        rw [if_neg (List.cons_ne_nil _ _), List.filter_eq_self]
        intro d hd
        rw [hreal d hd]
        rfl

namespace FaultLog

variable {N : Nat}

/-- **What the log reports is what a tool reads**: DM1 as the active codes
under their lamps, DM2 as the history with every lamp off. -/
def Reported (log : FaultLog N) : Prop :=
  ReadsBack log.dm1 log.dm1Len log.active log.lamps
    ∧ ReadsBack log.dm2 log.dm2Len log.previous Lamps.new

theorem reported_iff {log : FaultLog N} (h : log.WF) :
    log.Reported ↔ ∀ d ∈ log.active ++ log.previous, d.isNoFault = false := by
  have hactive : ∀ d ∈ log.active, d.InRange :=
    fun d hd => h.inRange d (List.mem_append_left _ hd)
  have hprevious : ∀ d ∈ log.previous, d.InRange :=
    fun d hd => h.inRange d (List.mem_append_right _ hd)
  rw [List.forall_mem_append]
  exact and_congr (readsBack_iff log.lamps hactive) (readsBack_iff Lamps.new hprevious)

/-! ## §3. Placeholders along a run. -/

/-- A fault whose code means "nothing to report". -/
def isPlaceholder (spn : Nat) (fmi : UInt8) : Bool := Dtc.isNoFault ⟨spn, fmi, 1, true⟩

theorem isNoFault_of_key {d : Dtc} {spn : Nat} {fmi : UInt8} (h : d.key = (spn, fmi)) :
    d.isNoFault = isPlaceholder spn fmi := by
  have hspn : d.spn = spn := congrArg Prod.fst h
  have hfmi : d.fmi = fmi := congrArg Prod.snd h
  unfold isPlaceholder Dtc.isNoFault
  rw [hspn, hfmi]

/-- Both placeholders are codes the log accepts. -/
theorem inRange_of_isPlaceholder {spn : Nat} {fmi : UInt8} (h : isPlaceholder spn fmi = true) :
    spn ≤ maxSpn ∧ fmi ≤ maxFmi := by
  simp only [isPlaceholder, Dtc.isNoFault, Bool.or_eq_true, Bool.and_eq_true, beq_iff_eq] at h
  rcases h with ⟨rfl, rfl⟩ | ⟨rfl, rfl⟩
  · decide
  · decide

/-- A placeholder that finds room is active from then on. -/
theorem names_of_set {log : FaultLog N} {spn : Nat} {fmi : UInt8} (lamp : Lamp)
    (hp : isPlaceholder spn fmi = true) (hroom : log.active.length ≠ N) :
    Names (log.set spn fmi lamp).2.active (spn, fmi) := by
  rcases log.set_cases spn fmi lamp with
    ⟨e, hbad | hfull, -⟩ | ⟨index, hfind, -, ho⟩ | ⟨-, -, -, ho⟩
  · exact absurd (inRange_of_isPlaceholder hp) hbad
  · exact absurd hfull.2 hroom
  · rw [ho]
    obtain ⟨hlt, hkey⟩ := find_eq_some hfind
    exact ⟨_, List.getElem_mem hlt, hkey⟩
  · rw [ho]
    exact ⟨_, List.mem_append_right _ (List.mem_singleton_self _), rfl⟩

/-- An operation brings no placeholder in, unless it raises one that finds
room. -/
theorem no_placeholder_apply {log : FaultLog N} (h : log.WF) {op : Op}
    (hop : ∀ spn fmi lamp, op = .set spn fmi lamp → isPlaceholder spn fmi = true →
      log.active.length = N)
    (hlog : ∀ d ∈ log.active ++ log.previous, d.isNoFault = false) :
    ∀ d ∈ (log.apply op).2.active ++ (log.apply op).2.previous, d.isNoFault = false := by
  intro d hd
  cases op with
  | set spn fmi lamp =>
    simp only [apply] at hd
    rcases log.set_cases spn fmi lamp with ⟨e, -, ho⟩ | ⟨index, -, -, ho⟩ | ⟨-, hroom, -, ho⟩
    · rw [ho] at hd
      exact hlog d hd
    · rw [ho] at hd
      exact hlog d hd
    · rw [ho] at hd
      rcases List.mem_append.mp hd with hactive | hprevious
      · rcases List.mem_append.mp hactive with hold | hnew
        · exact hlog d (List.mem_append_left _ hold)
        · -- the new code is no placeholder, since there was room
          rw [List.mem_singleton.mp hnew, isNoFault_of_key rfl]
          by_contra hp
          exact hroom (hop spn fmi lamp rfl (by simpa using hp))
      · exact hlog d (List.mem_append_right _ ((without_sublist _ _ _).subset hprevious))
  | clear spn fmi =>
    simp only [apply] at hd
    rcases log.clear_cases spn fmi h.disjoint with ⟨-, ho⟩ | ⟨index, hlt, -, -, ho⟩
    · rw [ho] at hd
      exact hlog d hd
    · rw [ho] at hd
      rcases List.mem_append.mp hd with hactive | hprevious
      · exact hlog d (List.mem_append_left _ ((List.eraseIdx_sublist _ _).subset hactive))
      rcases List.mem_append.mp hprevious with hkept | hlast
      · refine hlog d (List.mem_append_right _ ?_)
        split at hkept
        · exact List.mem_of_mem_tail hkept
        · exact hkept
      · rw [List.mem_singleton.mp hlast]
        exact hlog _ (List.mem_append_left _ (List.getElem_mem hlt))
  | clearActive => exact hlog d (List.mem_append_right _ hd)
  | clearPreviouslyActive =>
    simp only [apply, clearPreviouslyActive, List.append_nil] at hd
    exact hlog d (List.mem_append_left _ hd)
  | tick elapsedMs =>
    simp only [apply] at hd
    rcases log.tick_cases elapsedMs with ⟨-, ho⟩ | ⟨-, -, ho⟩ <;> rw [ho] at hd <;>
      exact hlog d hd

theorem trace_no_placeholder {tr : List (Entry (FaultLog N) Op Reply)} {log : FaultLog N}
    (htrace : Trace step FaultLog.new tr log)
    (hop : ∀ e ∈ tr, ∀ spn fmi lamp, e.event = .set spn fmi lamp → isPlaceholder spn fmi = true →
      e.before.active.length = N) :
    log.WF ∧ ∀ d ∈ log.active ++ log.previous, d.isNoFault = false := by
  induction htrace with
  | nil => exact ⟨WF.new, fun d hd => (by cases hd)⟩
  | @snoc tr log log' op o htrace hstep ih =>
    obtain ⟨hwf, hnone⟩ := ih fun e he => hop e (List.mem_append_left _ he)
    have hlast := hop _ (List.mem_append_right _ (List.mem_singleton_self _))
    rw [(step_eq hstep).2]
    exact ⟨hwf.apply op, no_placeholder_apply hwf hlast hnone⟩

/-- **A tool always reads what the log holds exactly if every placeholder
that is raised meets a full log**, along any run of a log of any
capacity. -/
theorem reported_always_iff (ops : List Op) :
    ∃ tr log, run step (FaultLog.new : FaultLog N) ops = .ok (tr, log)
      ∧ (((FaultLog.new : FaultLog N).Reported ∧ ∀ e ∈ tr, e.after.Reported)
        ↔ ∀ e ∈ tr, ∀ spn fmi lamp, e.event = .set spn fmi lamp →
            isPlaceholder spn fmi = true → e.before.active.length = N) := by
  obtain ⟨tr, log, hrun, -⟩ := run_wf (N := N) ops
  obtain ⟨htrace, -⟩ := run_trace hrun
  refine ⟨tr, log, hrun, ?_, ?_⟩
  · rintro ⟨-, hreported⟩ e he spn fmi lamp hevent hp
    by_contra hroom
    obtain ⟨pre, post, rfl⟩ := List.append_of_mem he
    obtain ⟨hpre, hstep⟩ := htrace.split
    have hwf := trace_wf hpre
    have hafter := (step_eq hstep).2.symm
    -- the placeholder is active now, and a tool does not list it
    obtain ⟨d, hd, hkey⟩ := names_of_set lamp hp hroom
    have hnone := (reported_iff (hafter ▸ hwf.apply _)).mp (hreported e he)
    rw [hevent] at hafter
    have hfalse := hnone d (List.mem_append_left _ (hafter ▸ hd))
    rw [isNoFault_of_key hkey, hp] at hfalse
    cases hfalse
  · intro hop
    refine ⟨(reported_iff WF.new).mpr (fun d hd => by cases hd), ?_⟩
    intro e he
    obtain ⟨pre, post, rfl⟩ := List.append_of_mem he
    obtain ⟨hpre, hstep⟩ := htrace.split
    obtain ⟨hwf, hnone⟩ := trace_no_placeholder (hpre.snoc hstep) fun x hx =>
      hop x (by
        rw [← List.singleton_append, ← List.append_assoc]
        exact List.mem_append_left _ hx)
    exact (reported_iff hwf).mpr hnone

/-- A log with one live fault, which every tool reads as health. -/
theorem placeholder_reads_healthy :
    ((FaultLog.new : FaultLog 8).set 0 0 .redStop).1 = .ok ()
      ∧ ((FaultLog.new : FaultLog 8).set 0 0 .redStop).2.isHealthy = false
      ∧ ¬ ((FaultLog.new : FaultLog 8).set 0 0 .redStop).2.Reported := by
  refine ⟨rfl, rfl, fun hreported => ?_⟩
  have hnone := (reported_iff (WF.new.set 0 0 .redStop)).mp hreported
  have hfalse := hnone ⟨0, 0, 1, true⟩ (by decide)
  cases hfalse

end FaultLog

end SaeJ1939.Diagnostics
