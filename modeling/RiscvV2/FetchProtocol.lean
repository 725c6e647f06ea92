import RiscvV2.FetchUnit
import Mathlib.Data.List.Nodup

/-!
# The fetch protocol

The instruction memory answers every request once, in a later cycle, with the address of the
request. A recorder numbers the requests and keeps which of them are unanswered, delivered to
IF/ID, or overtaken by a redirect, and the trail of delivered pcs and redirect targets.
`FetchAccount` relates these books to the situations of the fetch unit.

The recorder is what makes statements about requests possible at all. The core has no identity
for a request, only an address that may repeat, and it has no memory of what it has delivered.
In the books every request has a number, and the properties are ordinary statements about
numbers: each one is delivered at most once, none is both delivered and overtaken, and none is
lost.

The restriction on the memory is as weak as it can be while answers still mean something: it may
take any number of cycles and may answer in the cycle after the request, but it may not answer
what was not asked. Nothing is said about the instruction words it returns.
-/

namespace RiscvV2

variable {n : ℕ} {c : Config}

/-! ## The books -/

/-- What happens at the end of the fetch unit. -/
inductive FetchEvent
  | deliver (pc : Word)
  | redirect (target : Word)
  deriving DecidableEq, Repr

/-- The pc that is due after a trail of events. -/
def chainPc (start : Word) : List FetchEvent → Word
  | [] => start
  | .deliver pc :: es => chainPc (pc + 4#32) es
  | .redirect target :: es => chainPc target es

/-- Every delivered pc is the one that was due: the start address, four more than the pc
delivered before, or the target of the last redirect in between. -/
def PcChain (start : Word) : List FetchEvent → Prop
  | [] => True
  | .deliver pc :: es => pc = start ∧ PcChain (pc + 4#32) es
  | .redirect target :: es => PcChain target es

/-- What is recorded of the fetch unit since the last reset. Requests are numbered. -/
structure FetchLog where
  /-- the number of requests made -/
  issued : ℕ := 0
  /-- the requests without an answer, with their addresses -/
  unanswered : List (ℕ × Word) := []
  /-- the requests whose response was delivered to IF/ID -/
  delivered : List ℕ := []
  /-- the requests that saw a redirect before they were delivered -/
  redirected : ℕ → Prop := fun _ => False
  /-- the request whose response was last put in the fetch buffer -/
  bufTag : ℕ := 0
  trail : List FetchEvent := []

/-- The request answered in this cycle. -/
def FetchLog.answered (g : FetchLog) (respPc : Word) : ℕ :=
  match g.unanswered.find? (fun q => q.2 == respPc) with
  | some q => q.1
  | none => 0

/-- The answers the instruction memory may give: only to a request of an earlier cycle, with
its address. A reset comes only when nothing is unanswered. -/
def fetchAllowed (g : FetchLog) (_s : Core) (i : CoreIn n) : Prop :=
  (i.imemReady = true → ∃ q ∈ g.unanswered, q.2 = i.imemRespPc) ∧
    (i.reset = true → g.unanswered = [])

/-- The books after a cycle. -/
def fetchRecord (c : Config) (g : FetchLog) (s : Core) (i : CoreIn n) : FetchLog :=
  if i.reset then {}
  else
    { issued := if imemReq c s i then g.issued + 1 else g.issued
      unanswered :=
        (if i.imemReady then g.unanswered.eraseP (fun q => q.2 == i.imemRespPc)
          else g.unanswered) ++
        (if imemReq c s i then [(g.issued, imemAddr s.fetch)] else [])
      delivered := g.delivered ++
        if ifAccept c s i then
          [if s.fetch.ifBufValid then g.bufTag else g.answered i.imemRespPc]
        else []
      redirected := fun k => g.redirected k ∨
        ((exRedirect c s.pipe i.dmemReady).isSome = true ∧ k < g.issued ∧ k ∉ g.delivered)
      bufTag := if ifBufFill c s i then g.answered i.imemRespPc else g.bufTag
      trail := g.trail ++
        match exRedirect c s.pipe i.dmemReady with
        | some target => [.redirect target]
        | none => if ifAccept c s i then [.deliver (ifRespPc s.fetch i.imemRespPc)] else [] }

/-- The core with an instruction memory that keeps the protocol, and the books. -/
def fetchSystem (c : Config) :
    Clocked (Clocked.Recorded Core FetchLog) (CoreIn c.numExtInterrupts) :=
  (coreSystem c).record {} fetchAllowed (fetchRecord c)

/-! ## Trails -/

theorem chainPc_append (es : List FetchEvent) (start : Word) (es' : List FetchEvent) :
    chainPc start (es ++ es') = chainPc (chainPc start es) es' := by
  induction es generalizing start with
  | nil => rfl
  | cons e es ih =>
    cases e with
    | deliver pc => exact ih (pc + 4#32)
    | redirect target => exact ih target

theorem pcChain_append (es : List FetchEvent) (start : Word) (es' : List FetchEvent) :
    PcChain start (es ++ es') ↔ PcChain start es ∧ PcChain (chainPc start es) es' := by
  induction es generalizing start with
  | nil => simp [PcChain, chainPc]
  | cons e es ih =>
    cases e with
    | deliver pc => simp only [List.cons_append, PcChain, chainPc, ih, and_assoc]
    | redirect target => exact ih target

/-! ## The books and the situations of the fetch unit

In each of the four situations the books have one shape, and since there is at most one
unanswered request, that shape is simple. The step lemma moves between the shapes along with the
flags. -/

/-- Every request below `m` was delivered or overtaken by a redirect. -/
def FetchLog.Settled (g : FetchLog) (m : ℕ) : Prop := ∀ k < m, k ∈ g.delivered ∨ g.redirected k

/-- Request `m` is the last one and still on its way to IF/ID. -/
structure FetchLog.Current (g : FetchLog) (m : ℕ) : Prop where
  last : g.issued = m + 1
  settled : g.Settled m
  notDelivered : m ∉ g.delivered
  notRedirected : ¬ g.redirected m

/-- The books in each situation of the fetch unit. -/
inductive FetchAccount (f : Fetch) (g : FetchLog) : Prop
  | idle (h : f.Idle) (hu : g.unanswered = []) (hs : g.Settled g.issued)
  | waiting {m : ℕ} (h : f.Waiting) (hu : g.unanswered = [(m, f.pcF)]) (hm : g.Current m)
  | buffered (h : f.Buffered) (hu : g.unanswered = []) (hpc : f.ifBufPc = f.pcF)
      (hm : g.Current g.bufTag)
  | discarding {m : ℕ} {a : Word} (h : f.Discarding) (hu : g.unanswered = [(m, a)])
      (hm : g.redirected m) (hs : g.Settled g.issued)

/-- The invariant of the books. -/
structure FetchInv (c : Config) (s : Core) (g : FetchLog) : Prop where
  account : FetchAccount s.fetch g
  chain : PcChain c.resetPc g.trail
  due : chainPc c.resetPc g.trail = s.fetch.pcF
  once : g.delivered.Nodup
  delivered_lt : ∀ k ∈ g.delivered, k < g.issued
  redirected_lt : ∀ k, g.redirected k → k < g.issued ∧ k ∉ g.delivered

theorem fetchInv_reset (c : Config) : FetchInv c (coreReset c) {} where
  account := .idle ⟨rfl, rfl, rfl⟩ rfl fun k hk => by cases hk
  chain := trivial
  due := rfl
  once := List.nodup_nil
  delivered_lt k hk := by cases hk
  redirected_lt k hk := hk.elim

variable {s : Core} {g : FetchLog} {i : CoreIn n}

/-- Without an unanswered request no response comes. -/
theorem no_response (hok : fetchAllowed g s i) (hu : g.unanswered = []) :
    i.imemReady = false := by
  by_contra hr
  obtain ⟨q, hq, -⟩ := hok.1 (Bool.eq_true_of_not_eq_false hr)
  rw [hu] at hq
  cases hq

/-- A response answers the only unanswered request. -/
theorem response_of_single (hok : fetchAllowed g s i) {m : ℕ} {a : Word}
    (hu : g.unanswered = [(m, a)]) (hr : i.imemReady = true) :
    i.imemRespPc = a ∧ g.answered i.imemRespPc = m ∧
      g.unanswered.eraseP (fun q => q.2 == i.imemRespPc) = [] := by
  obtain ⟨q, hq, hpc⟩ := hok.1 hr
  rw [hu, List.mem_singleton] at hq
  subst hq
  refine ⟨hpc.symm, ?_, ?_⟩
  · simp [FetchLog.answered, hu, ← hpc]
  · simp [hu, ← hpc]

/-- A redirect settles every request. -/
theorem settled_of_redirect {g' : FetchLog} (hissued : g'.issued = g.issued)
    (hred : ∀ k, k < g.issued → k ∉ g.delivered → g'.redirected k)
    (hdel : g'.delivered = g.delivered) : g'.Settled g'.issued := by
  intro k hk
  rw [hissued] at hk
  by_cases hd : k ∈ g.delivered
  · exact .inl (hdel ▸ hd)
  · exact .inr (hred k hk hd)

/-- The cycle of a redirect. -/
theorem fetchInv_redirect (hst : CoreStaged s) (hI : FetchInv c s g)
    (hok : fetchAllowed g s i) (hreset : i.reset = false) {target : Word}
    (hr : exRedirect c s.pipe i.dmemReady = some target) :
    FetchInv c (coreNext c s i) (fetchRecord c g s i) := by
  have hfetch : (coreNext c s i).fetch = _ :=
    (coreNext_fetch hreset).trans (fetchNext_redirect hr)
  have ha := ifAccept_of_redirect (c := c) hr
  have hq := imemReq_of_redirect (c := c) hr
  have hrec : fetchRecord c g s i =
      { g with
        unanswered := if i.imemReady then g.unanswered.eraseP (fun q => q.2 == i.imemRespPc)
          else g.unanswered
        redirected := fun k => g.redirected k ∨ (k < g.issued ∧ k ∉ g.delivered)
        bufTag := (fetchRecord c g s i).bufTag
        trail := g.trail ++ [.redirect target] } := by
    simp [fetchRecord, hreset, hr, ha, hq]
  have hsettled : (fetchRecord c g s i).Settled (fetchRecord c g s i).issued := by
    refine settled_of_redirect (g := g) ?_ ?_ ?_
    · rw [hrec]
    · rw [hrec]
      exact fun k hk hd => .inr ⟨hk, hd⟩
    · rw [hrec]
  constructor
  case account =>
    have hflags : ∀ b, (s.fetch.ifPendingValid && !i.imemReady) = b →
        (coreNext c s i).fetch.ifPendingValid = false ∧
          (coreNext c s i).fetch.ifBufValid = false ∧
          (coreNext c s i).fetch.ifDiscardPending = b := by
      rintro b rfl
      rw [hfetch]
      exact ⟨rfl, rfl, rfl⟩
    cases hI.account with
    | idle h hu hs =>
      have hi := no_response hok hu
      obtain ⟨h1, h2, h3⟩ := hflags false (by rw [h.pending]; rfl)
      refine .idle ⟨h1, h2, h3⟩ ?_ hsettled
      rw [hrec, hi, hu]
      rfl
    | @waiting m h hu hm =>
      cases hi : i.imemReady with
      | true =>
        obtain ⟨h1, h2, h3⟩ := hflags false (by rw [hi, Bool.not_true, Bool.and_false])
        refine .idle ⟨h1, h2, h3⟩ ?_ hsettled
        rw [hrec, hi, if_pos rfl]
        exact (response_of_single hok hu hi).2.2
      | false =>
        obtain ⟨h1, h2, h3⟩ := hflags true (by rw [h.pending, hi]; rfl)
        -- the request outlives the redirect: its response is the one to discard
        refine .discarding (m := m) (a := s.fetch.pcF) ⟨h1, h2, h3⟩ ?_ ?_ hsettled
        · rw [hrec, hi, if_neg (by simp), hu]
        · rw [hrec]
          exact .inr ⟨hm.last ▸ Nat.lt_succ_self m, hm.notDelivered⟩
    | buffered h hu hpc hm =>
      have hi := no_response hok hu
      obtain ⟨h1, h2, h3⟩ := hflags false (by rw [h.pending]; rfl)
      refine .idle ⟨h1, h2, h3⟩ ?_ hsettled
      rw [hrec, hi, hu]
      rfl
    | discarding h hu hm hs =>
      -- nothing in EX, so nothing redirects
      rw [exRedirect_of_idEx_invalid (hst.quiet h).2] at hr
      cases hr
  case chain =>
    rw [hrec]
    exact (pcChain_append _ _ _).mpr ⟨hI.chain, trivial⟩
  case due =>
    rw [hrec, hfetch]
    exact chainPc_append _ _ _
  case once =>
    rw [hrec]
    exact hI.once
  case delivered_lt =>
    rw [hrec]
    exact hI.delivered_lt
  case redirected_lt =>
    rw [hrec]
    rintro k (hk | hk)
    · exact hI.redirected_lt k hk
    · exact hk

/-- A cycle that neither redirects nor delivers leaves all books but those of the memory. -/
theorem FetchInv.silent {s' : Core} {g' : FetchLog} (hI : FetchInv c s g)
    (hpc : s'.fetch.pcF = s.fetch.pcF) (htrail : g'.trail = g.trail)
    (hdel : g'.delivered = g.delivered) (hred : g'.redirected = g.redirected)
    (hissued : g.issued ≤ g'.issued) (account : FetchAccount s'.fetch g') :
    FetchInv c s' g' where
  account := account
  chain := htrail ▸ hI.chain
  due := by rw [htrail, hI.due, hpc]
  once := hdel ▸ hI.once
  delivered_lt k hk := lt_of_lt_of_le (hI.delivered_lt k (hdel ▸ hk)) hissued
  redirected_lt k hk := by
    rw [hred] at hk
    obtain ⟨hlt, hnot⟩ := hI.redirected_lt k hk
    exact ⟨lt_of_lt_of_le hlt hissued, hdel ▸ hnot⟩

/-- A cycle that delivers the current request. -/
theorem FetchInv.deliver {s' : Core} {g' : FetchLog} (hI : FetchInv c s g) {m : ℕ}
    (hm : g.Current m) (hidle : s'.fetch.Idle) (hpc : s'.fetch.pcF = s.fetch.pcF + 4#32)
    (hu : g'.unanswered = []) (htrail : g'.trail = g.trail ++ [.deliver s.fetch.pcF])
    (hdel : g'.delivered = g.delivered ++ [m]) (hred : g'.redirected = g.redirected)
    (hissued : g'.issued = g.issued) : FetchInv c s' g' := by
  have hmem : ∀ k, k ∈ g'.delivered ↔ k ∈ g.delivered ∨ k = m := by
    intro k
    rw [hdel, List.mem_append, List.mem_singleton]
  constructor
  case account =>
    refine .idle hidle hu fun k hk => ?_
    rw [hmem, hred]
    rw [hissued, hm.last] at hk
    rcases Nat.lt_succ_iff_lt_or_eq.mp hk with hlt | heq
    · rcases hm.settled k hlt with hd | hr
      · exact .inl (.inl hd)
      · exact .inr hr
    · exact .inl (.inr heq)
  case chain =>
    rw [htrail, pcChain_append, hI.due]
    exact ⟨hI.chain, rfl, trivial⟩
  case due =>
    rw [htrail, chainPc_append, hpc]
    rfl
  case once =>
    rw [hdel]
    exact hI.once.append (List.nodup_singleton m) (by simpa using hm.notDelivered)
  case delivered_lt =>
    intro k hk
    rw [hissued]
    rcases (hmem k).mp hk with hd | rfl
    · exact hI.delivered_lt k hd
    · rw [hm.last]
      exact Nat.lt_succ_self k
  case redirected_lt =>
    intro k hk
    rw [hred] at hk
    obtain ⟨hlt, hnot⟩ := hI.redirected_lt k hk
    refine ⟨hissued ▸ hlt, fun hd => ?_⟩
    rcases (hmem k).mp hd with hd | rfl
    · exact hnot hd
    · exact hm.notRedirected hk

/-- Without a request, a response and a delivery there is nothing to book. -/
theorem fetchRecord_quiet (hreset : i.reset = false)
    (hr : exRedirect c s.pipe i.dmemReady = none) (ha : ifAccept c s i = false)
    (hq : imemReq c s i = false) (hi : i.imemReady = false) (hfill : ifBufFill c s i = false) :
    fetchRecord c g s i = g := by
  simp [fetchRecord, hreset, hr, ha, hq, hi, hfill]

/-- A cycle without a redirect. -/
theorem fetchInv_advance (hI : FetchInv c s g)
    (hok : fetchAllowed g s i) (hreset : i.reset = false)
    (hr : exRedirect c s.pipe i.dmemReady = none) :
    FetchInv c (coreNext c s i) (fetchRecord c g s i) := by
  have hfetch : (coreNext c s i).fetch = fetchNext c s i := coreNext_fetch hreset
  cases hI.account with
  | idle h hu hs =>
    have hi := no_response hok hu
    have ha := ifAccept_idle (c := c) (i := i) h
    have hfill : ifBufFill c s i = false := by simp [ifBufFill, h.pending]
    rw [fetchNext_idle hr h] at hfetch
    cases hq : imemReq c s i with
    | true =>
      have hrec : fetchRecord c g s i =
          { g with issued := g.issued + 1, unanswered := [(g.issued, s.fetch.pcF)] } := by
        simp [fetchRecord, hreset, hr, ha, hq, hi, hu, hfill, imemAddr]
      rw [hrec]
      refine hI.silent (by rw [hfetch]) rfl rfl rfl (Nat.le_succ _) ?_
      rw [hfetch, hq]
      -- the new request has the next number, which no book mentions yet
      refine .waiting (m := g.issued) ⟨rfl, h.buf, h.discard⟩ rfl ⟨rfl, hs, fun hd => ?_,
        fun hd => ?_⟩
      · exact lt_irrefl _ (hI.delivered_lt _ hd)
      · exact lt_irrefl _ (hI.redirected_lt _ hd).1
    | false =>
      rw [fetchRecord_quiet hreset hr ha hq hi hfill]
      refine hI.silent (by rw [hfetch]) rfl rfl rfl le_rfl ?_
      rw [hfetch, hq]
      exact .idle ⟨rfl, h.buf, h.discard⟩ hu hs
  | @waiting m h hu hm =>
    have ha := ifAccept_waiting hr h
    have hq := imemReq_waiting (c := c) (i := i) h
    rw [fetchNext_waiting hr h] at hfetch
    cases hi : i.imemReady with
    | false =>
      rw [hi, Bool.and_false] at ha
      have hfill : ifBufFill c s i = false := by simp [ifBufFill, hi]
      rw [fetchRecord_quiet hreset hr ha hq hi hfill]
      rw [hi, if_neg (by simp)] at hfetch
      refine hI.silent (by rw [hfetch]) rfl rfl rfl le_rfl ?_
      rw [hfetch]
      exact .waiting h hu hm
    | true =>
      obtain ⟨hpc, hans, herase⟩ := response_of_single hok hu hi
      rw [hpc] at hans herase
      rw [hi, Bool.and_true] at ha
      rw [hi, if_pos rfl] at hfetch
      cases hmoves : frontMoves s.pipe i.dmemReady with
      | true =>
        -- the response goes straight to IF/ID
        rw [hmoves] at ha
        rw [hmoves, if_pos rfl] at hfetch
        have hfill : ifBufFill c s i = false := by simp [ifBufFill, ha]
        have hrec : fetchRecord c g s i =
            { g with
              unanswered := []
              delivered := g.delivered ++ [m]
              trail := g.trail ++ [.deliver s.fetch.pcF] } := by
          simp [fetchRecord, hreset, hr, ha, hq, hi, hfill, herase, hans, h.buf, ifRespPc, hpc]
        rw [hrec]
        refine hI.deliver hm ?_ (by rw [hfetch]) rfl rfl rfl rfl rfl
        rw [hfetch]
        exact ⟨rfl, h.buf, h.discard⟩
      | false =>
        -- the front end is held and the response is buffered
        rw [hmoves] at ha
        rw [hmoves, if_neg (by simp)] at hfetch
        have hfill : ifBufFill c s i = true := by
          simp [ifBufFill, ifLiveRespValid, ha, hi, h.pending, h.buf, h.discard]
        have hrec : fetchRecord c g s i = { g with unanswered := [], bufTag := m } := by
          simp [fetchRecord, hreset, hr, ha, hq, hi, hfill, hpc, herase, hans]
        rw [hrec]
        refine hI.silent (by rw [hfetch]) rfl rfl rfl le_rfl ?_
        rw [hfetch]
        exact .buffered ⟨rfl, rfl, h.discard⟩ rfl hpc ⟨hm.last, hm.settled, hm.notDelivered,
          hm.notRedirected⟩
  | buffered h hu hpc hm =>
    have hi := no_response hok hu
    have ha := ifAccept_buffered hr h
    have hq := imemReq_buffered (c := c) (i := i) h
    have hfill : ifBufFill c s i = false := by simp [ifBufFill, hi]
    rw [fetchNext_buffered hr h] at hfetch
    cases hmoves : frontMoves s.pipe i.dmemReady with
    | true =>
      rw [hmoves] at ha
      rw [hmoves, if_pos rfl] at hfetch
      have hrec : fetchRecord c g s i =
          { g with
            delivered := g.delivered ++ [g.bufTag]
            trail := g.trail ++ [.deliver s.fetch.pcF] } := by
        simp [fetchRecord, hreset, hr, ha, hq, hi, hfill, h.buf, ifRespPc, hpc]
      rw [hrec]
      refine hI.deliver hm ?_ (by rw [hfetch]) hu rfl rfl rfl rfl
      rw [hfetch]
      exact ⟨h.pending, rfl, h.discard⟩
    | false =>
      rw [hmoves] at ha
      rw [hmoves, if_neg (by simp)] at hfetch
      rw [fetchRecord_quiet hreset hr ha hq hi hfill]
      refine hI.silent (by rw [hfetch]) rfl rfl rfl le_rfl ?_
      rw [hfetch]
      exact .buffered h hu hpc hm
  | @discarding m a h hu hm hs =>
    have ha := ifAccept_discarding (c := c) (i := i) h
    have hq := imemReq_discarding (c := c) (i := i) h
    have hfill : ifBufFill c s i = false := by simp [ifBufFill, h.pending]
    rw [fetchNext_discarding hr h] at hfetch
    cases hi : i.imemReady with
    | true =>
      have herase := (response_of_single hok hu hi).2.2
      have hrec : fetchRecord c g s i = { g with unanswered := [] } := by
        simp [fetchRecord, hreset, hr, ha, hq, hi, hfill, herase]
      rw [hrec]
      refine hI.silent (by rw [hfetch]) rfl rfl rfl le_rfl ?_
      rw [hfetch, hi]
      exact .idle ⟨h.pending, h.buf, rfl⟩ rfl hs
    | false =>
      rw [fetchRecord_quiet hreset hr ha hq hi hfill]
      refine hI.silent (by rw [hfetch]) rfl rfl rfl le_rfl ?_
      rw [hfetch, hi]
      exact .discarding ⟨h.pending, h.buf, rfl⟩ hu hm hs

/-- **The books are right in every reachable state.** -/
theorem fetchInv_of_reachable {t : Clocked.Recorded Core FetchLog}
    (ht : (fetchSystem c).Reachable t) : FetchInv c t.sys t.log := by
  refine Clocked.Reachable.recorded (I := FetchInv c) ?_ ?_ ht
  · rintro s rfl
    exact fetchInv_reset c
  · intro s g i hs _ hok hI
    have hst := coreStaged_of_reachable hs
    have hnext : (coreSystem c).next s i = coreNext c s i := rfl
    rw [hnext]
    cases hreset : i.reset with
    | true =>
      rw [coreNext_of_reset hreset, fetchRecord, if_pos hreset]
      exact fetchInv_reset c
    | false =>
      cases hr : exRedirect c s.pipe i.dmemReady with
      | some target => exact fetchInv_redirect hst hI hok hreset hr
      | none => exact fetchInv_advance hI hok hreset hr

/-- The response that is accepted has the address in `pc_f`. -/
theorem FetchInv.accepted_pc (hI : FetchInv c s g) (hok : fetchAllowed g s i)
    (ha : ifAccept c s i = true) : ifRespPc s.fetch i.imemRespPc = s.fetch.pcF := by
  cases hI.account with
  | idle hf =>
    rw [ifAccept_idle hf] at ha
    cases ha
  | waiting hf hu hm =>
    have hready : i.imemReady = true := by
      by_contra hr
      simp [ifAccept, ifRespValid, ifLiveRespValid, hf.buf, hr] at ha
    rw [ifRespPc, if_neg (by simp [hf.buf]), (response_of_single hok hu hready).1]
  | buffered hf hu hpc hm => rw [ifRespPc, if_pos hf.buf, hpc]
  | discarding hf =>
    rw [ifAccept_discarding hf] at ha
    cases ha

/-! ## The protocol

The statement has five parts, one for each thing a reader of the fetch unit might doubt: the
count of the flags, the discarded response, single delivery, the chain of pcs, and the
acknowledgement of responses. -/

/-- A response waits in the fetch buffer. -/
def inBuffer (f : Fetch) (g : FetchLog) (k : ℕ) : Prop := f.ifBufValid = true ∧ g.bufTag = k

/-- The books of an answered request. -/
theorem FetchInv.answered_settled (hI : FetchInv c s g) {k : ℕ} (hk : k < g.issued)
    (hans : k ∉ g.unanswered.map Prod.fst) :
    g.redirected k ↔ k ∉ g.delivered ∧ ¬ inBuffer s.fetch g k := by
  have hdisj : g.redirected k → k ∉ g.delivered := fun hr => (hI.redirected_lt k hr).2
  cases hI.account with
  | idle h hu hs =>
    have hnb : ¬ inBuffer s.fetch g k := fun hb => by simpa [h.buf] using hb.1
    exact ⟨fun hr => ⟨hdisj hr, hnb⟩, fun hn => (hs k hk).resolve_left hn.1⟩
  | @waiting m h hu hm =>
    have hnb : ¬ inBuffer s.fetch g k := fun hb => by simpa [h.buf] using hb.1
    have hlt : k < m := by
      have hne : k ≠ m := by simpa [hu] using hans
      have := hm.last
      omega
    exact ⟨fun hr => ⟨hdisj hr, hnb⟩, fun hn => (hm.settled k hlt).resolve_left hn.1⟩
  | buffered h hu hpc hm =>
    rcases Nat.lt_succ_iff_lt_or_eq.mp (hm.last ▸ hk) with hlt | rfl
    · have hnb : ¬ inBuffer s.fetch g k := fun hb => by
        have := hb.2
        omega
      exact ⟨fun hr => ⟨hdisj hr, hnb⟩, fun hn => (hm.settled k hlt).resolve_left hn.1⟩
    · exact ⟨fun hr => absurd hr hm.notRedirected, fun hn => absurd ⟨h.buf, rfl⟩ hn.2⟩
  | discarding h hu hm hs =>
    have hnb : ¬ inBuffer s.fetch g k := fun hb => by simpa [h.buf] using hb.1
    exact ⟨fun hr => ⟨hdisj hr, hnb⟩, fun hn => (hs k hk).resolve_left hn.1⟩

/-- **Fetch-protocol safety**: in every run with a memory that keeps the protocol.

The flags count the unanswered requests; while a response is to be discarded, the fetch
buffer, IF/ID and EX are empty and only that response clears the flag; an answered request
is delivered at most once, sits in the buffer, or was overtaken by a redirect, and the last
exactly if it is neither delivered nor buffered; the delivered pcs form the chain; and every
response is acknowledged. -/
theorem fetch_protocol (c : Config) {t : Clocked.Recorded Core FetchLog}
    (ht : (fetchSystem c).Reachable t) :
    let f := t.sys.fetch
    let g := t.log
    (g.unanswered.length = f.ifPendingValid.toNat + f.ifDiscardPending.toNat ∧
      g.unanswered.length ≤ 1) ∧
    (f.ifDiscardPending = true → f.ifBufValid = false ∧ t.sys.pipe.ifId.valid = false ∧
      t.sys.pipe.idEx.valid = false ∧
      ∀ i : CoreIn c.numExtInterrupts, i.reset = false → i.imemReady = false →
        (coreNext c t.sys i).fetch.ifDiscardPending = true) ∧
    (g.delivered.Nodup ∧
      (∀ k ∈ g.delivered, k < g.issued ∧ k ∉ g.unanswered.map Prod.fst ∧
        ¬ inBuffer f g k) ∧
      ∀ k < g.issued, k ∉ g.unanswered.map Prod.fst →
        (g.redirected k ↔ k ∉ g.delivered ∧ ¬ inBuffer f g k)) ∧
    PcChain c.resetPc g.trail ∧
    ∀ i : CoreIn c.numExtInterrupts, fetchAllowed g t.sys i → i.imemReady = true →
      imemRespAccept c t.sys i = true := by
  intro f g
  have hst := coreStaged_of_reachable ht.sys
  have hI := fetchInv_of_reachable ht
  refine ⟨?_, fun hd => ?_, ⟨hI.once, fun k hk => ?_, fun k hk hans => ?_⟩, hI.chain,
    fun i hok hi => ?_⟩
  · cases hI.account with
    | idle h hu hs => simp [g, f, hu, h.pending, h.discard]
    | waiting h hu hm => simp [g, f, hu, h.pending, h.discard]
    | buffered h hu hpc hm => simp [g, f, hu, h.pending, h.discard]
    | discarding h hu hm hs => simp [g, f, hu, h.pending, h.discard]
  · have hdisc : f.Discarding := by
      cases hI.account with
      | idle h | waiting h | buffered h => exact absurd hd (by simp [f, h.discard])
      | discarding h => exact h
    obtain ⟨hId, hEx⟩ := hst.quiet hdisc
    refine ⟨hdisc.buf, hId, hEx, fun i hreset hi => ?_⟩
    rw [coreNext_fetch hreset, fetchNext_discarding (exRedirect_of_idEx_invalid hEx) hdisc, hi]
    rfl
  · refine ⟨hI.delivered_lt k hk, fun hu => ?_, fun hb => ?_⟩
    · cases hI.account with
      | idle h hu' hs => simp [g, hu'] at hu
      | waiting h hu' hm =>
        simp only [g, hu', List.map_cons, List.map_nil, List.mem_singleton] at hu
        exact hm.notDelivered (hu ▸ hk)
      | buffered h hu' hpc hm => simp [g, hu'] at hu
      | discarding h hu' hm hs =>
        simp only [g, hu', List.map_cons, List.map_nil, List.mem_singleton] at hu
        exact (hI.redirected_lt _ hm).2 (hu ▸ hk)
    · cases hI.account with
      | idle h | waiting h | discarding h => exact absurd hb.1 (by simp [f, h.buf])
      | buffered h hu' hpc hm => exact hm.notDelivered (hb.2 ▸ hk)
  · exact hI.answered_settled hk hans
  · cases hI.account with
    | idle h hu hs | buffered h hu hpc hm =>
      rw [no_response hok hu] at hi
      cases hi
    | waiting h hu hm => simp [imemRespAccept, hi, h.pending]
    | discarding h hu hm hs => simp [imemRespAccept, hi, h.discard]

/-- A response held in the buffer: the first instruction, `lw x0, 0(x0)`, waits in MEM when
the response to the second request arrives. -/
def bufferedInputs : List (CoreIn 32) :=
  [{}, { imemReady := true, imemInstr := 0x00002003#32 }, {}, {},
    { imemReady := true, imemInstr := 0x00000013#32, imemRespPc := 4#32 }]

theorem fetch_protocol_buffered :
    let t := (fetchSystem {}).after ⟨coreReset {}, {}⟩ bufferedInputs
    t.sys.fetch.ifBufValid = true ∧ t.log.unanswered.length = 0 ∧
      PcChain 0#32 t.log.trail := by
  intro t
  have hreach := Clocked.Reachable.after_allows (M := fetchSystem {})
    (s := ⟨coreReset {}, {}⟩) (.init ⟨rfl, rfl⟩) bufferedInputs
    ⟨⟨trivial, by decide, by decide⟩, ⟨trivial, by decide, by decide⟩,
      ⟨trivial, by decide, by decide⟩, ⟨trivial, by decide, by decide⟩,
      ⟨trivial, by decide, by decide⟩, trivial⟩
  obtain ⟨⟨hlen, -⟩, -, -, hchain, -⟩ := fetch_protocol {} hreach
  have hpend : t.sys.fetch.ifPendingValid = false := by decide
  have hdisc : t.sys.fetch.ifDiscardPending = false := by decide
  refine ⟨by decide, ?_, hchain⟩
  rw [hpend, hdisc] at hlen
  exact hlen

end RiscvV2
