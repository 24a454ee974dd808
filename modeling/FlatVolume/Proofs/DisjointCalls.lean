import FlatVolume.Proofs.Interference
import FlatVolume.Proofs.PocketCache

/-!
# Calls that do not meet

Reads and writes of a volume that are under way at the same time, in any order of their
requests. Where no write meets another call, each is answered as if it were alone, and the
files end as they do after the calls one by one.
-/

namespace FlatVolume

variable {Handle Cache File σ : Type}

/-- A read or a write of a volume. -/
inductive Call where
  | read (buffer : Bytes) (offset : Nat)
  | write (data : Bytes) (offset : Nat)

inductive Outcome where
  | reading (reading : Reading)
  | writing (outcome : Except (Failure VolumeError) Nat)

namespace Call

def ofRequest (r : Volume.ReadRequest) : Call :=
  .read r.buffer r.offset

def perform (patience : Nat) (v : Volume Handle Cache) : Call → Program Handle Cache Outcome
  | read buffer offset => do
    let reading ← v.read patience buffer offset
    pure (.reading reading)
  | write data offset => do
    let outcome ← v.write patience data offset
    pure (.writing outcome)

def offset : Call → Nat
  | read _ offset | write _ offset => offset

def length : Call → Nat
  | read buffer _ => buffer.length
  | write data _ => data.length

/-- The bytes that the call is to store. -/
def data : Call → Bytes
  | read _ _ => []
  | write data _ => data

def reads : Call → Bool
  | read _ _ => true
  | write _ _ => false

/-- The calls have no flat offset in common, or neither of them writes. -/
def Apart (c d : Call) : Prop :=
  (c.reads ∧ d.reads) ∨ ∀ q, ¬ (InRange c.offset c.length q ∧ InRange d.offset d.length q)

/-- What the call answers on an array with zeros behind its end. -/
def answer (a : Bytes) : Call → Outcome
  | read buffer offset => .reading ⟨FlatArray.read a buffer.length offset, .ok buffer.length⟩
  | write data offset => .writing ((FlatArray.answer a.length data offset).mapError .error)

theorem perform_read {v : Volume Handle Cache} (uncached : v.cache = none) (patience : Nat)
    (buffer : Bytes) (offset : Nat) :
    (read buffer offset).perform patience v =
      (v.readFiles patience buffer offset).bind fun reading => .done (.reading reading) := by
  rw [perform, Volume.read_uncached uncached]
  rfl

theorem perform_write {v : Volume Handle Cache} (uncached : v.cache = none) (patience : Nat)
    (data : Bytes) (offset : Nat) :
    (write data offset).perform patience v =
      (v.writeFiles patience data offset).bind fun outcome => .done (.writing outcome) := by
  rw [perform, Volume.write_uncached uncached]
  rfl

theorem Apart.symm {c d : Call} (h : c.Apart d) : d.Apart c := by
  rcases h with ⟨hc, hd⟩ | hout
  · exact .inl ⟨hd, hc⟩
  · exact .inr fun q hq => hout q ⟨hq.2, hq.1⟩

theorem Apart.of_pairwise {calls : List Call} (h : calls.Pairwise Apart) {i j : Nat} {c d : Call}
    (hij : i ≠ j) (hc : calls[i]? = some c) (hd : calls[j]? = some d) : c.Apart d := by
  obtain ⟨hi, rfl⟩ := List.getElem?_eq_some_iff.mp hc
  obtain ⟨hj, rfl⟩ := List.getElem?_eq_some_iff.mp hd
  rcases Nat.lt_or_gt_of_ne hij with hlt | hlt
  · exact List.pairwise_iff_getElem.mp h i j hi hj hlt
  · exact (List.pairwise_iff_getElem.mp h j i hj hi hlt).symm

theorem length_data_le (c : Call) : c.data.length ≤ c.length := by
  cases c with
  | read buffer offset => exact Nat.zero_le _
  | write data offset => exact Nat.le_refl _

end Call

namespace Backing

def Stores (b : Backing Handle File σ) (v : Volume Handle Cache) (c : Call) (state : σ) : Prop :=
  ∀ e ∈ v.layout.extents, ∀ i < e.length, InRange c.offset c.data.length (e.start + i) →
    c.data[e.start + i - c.offset]? = some (b.byte state (b.file e.handle) i)

/-- What a call relies on, guarantees and ends with where it starts from a state. -/
def contract (b : Backing Handle File σ) (v : Volume Handle Cache) (sound : σ → Prop) (start : σ)
    (c : Call) : Contract Outcome σ where
  relies := b.Leaves sound (b.Holds v c.offset c.length)
  guarantees := b.Leaves sound fun file i => ¬ b.Holds v c.offset c.data.length file i
  ends outcome state :=
    outcome = c.answer (b.flat v start) ∧ (sound state ∧ b.Stores v c state)

variable {b : Backing Handle File σ} {host : Host Handle Cache σ} {v : Volume Handle Cache}
  {sound : σ → Prop} {state : σ}

theorem coherent_contract (b : Backing Handle File σ) (v : Volume Handle Cache) (sound : σ → Prop)
    (start : σ) (c : Call) : (b.contract v sound start c).Coherent where
  refl s := Leaves.refl b sound _ s
  trans h h' := h.trans h'

theorem Stores.kept {c : Call} {s s' : σ} (h : b.Stores v c s) (hs : sound s)
    (hkept : b.Leaves sound (b.Holds v c.offset c.length) s s') : b.Stores v c s' := by
  obtain ⟨-, hsame⟩ := hkept hs
  intro e he i hi hin
  have hle := c.length_data_le
  rw [hsame (b.file e.handle) i ⟨e, he, rfl, hi, by unfold InRange at *; omega⟩]
  exact h e he i hi hin

theorem Faultless.meets (faultless : b.Faultless host v sound) (distinct : b.Distinct v)
    (uncached : v.cache = none) (patience : Nat) (c : Call) (hs : sound state) :
    (c.perform patience v).Meets host (b.contract v sound state c) state := by
  have coherent := coherent_contract b v sound state c
  cases c with
  | read buffer offset =>
    have hasks : ∀ request s, v.Asks .reading offset buffer.length request →
        (b.contract v sound state (.read buffer offset)).guarantees s (host.answer request s).2 :=
      fun _ s h => faultless.read_leaves h s _
    refine Program.meets_of_runs coherent hasks fun change hchange => ?_
    obtain ⟨hanswer, hsound⟩ := faultless.run_readFiles_among hchange patience hs
    rw [Call.perform_read uncached, Program.exchanges_bind, Program.exchanges_done, List.append_nil,
      Program.run_bind]
    refine ⟨Volume.asks_readFiles _ v patience buffer offset _, congrArg Outcome.reading hanswer,
      (hchange _ _ hsound).1, fun e he i hi hin => ?_⟩
    exact absurd hin.2 (Nat.not_lt_of_le hin.1)
  | write data offset =>
    have hasks : ∀ request s, v.Asks .writing offset data.length request →
        (b.contract v sound state (.write data offset)).guarantees s (host.answer request s).2 :=
      fun _ s h => faultless.write_leaves h s
    refine Program.meets_of_runs coherent hasks fun change hchange => ?_
    obtain ⟨hanswer, hsound, hstored⟩ :=
      faultless.run_writeFiles_among distinct hchange patience hs
    rw [Call.perform_write uncached, Program.exchanges_bind, Program.exchanges_done,
      List.append_nil, Program.run_bind]
    refine ⟨Volume.asks_writeFiles _ v patience data offset _, ?_, (hchange _ _ hsound).1,
      Stores.kept (c := .write data offset) hstored hsound (hchange _ _)⟩
    rw [Call.answer, length_flat]
    exact congrArg Outcome.writing hanswer

theorem Faultless.run_perform (faultless : b.Faultless host v sound) (distinct : b.Distinct v)
    (uncached : v.cache = none) (patience : Nat) (c : Call) (hs : sound state) :
    ((c.perform patience v).run host state).1 = c.answer (b.flat v state) := by
  cases c with
  | read buffer offset =>
    obtain ⟨after, hrun, -⟩ := faultless.run_readFiles patience buffer offset hs
    rw [Call.perform_read uncached, Program.run_bind, hrun]
    rfl
  | write data offset =>
    obtain ⟨after, hrun, -⟩ := faultless.run_writeFiles distinct patience data offset hs
    rw [Call.perform_write uncached, Program.run_bind, hrun, Call.answer, length_flat]
    rfl

variable {calls : List Call}

theorem compatible_contracts (distinct : b.Distinct v) (apart : calls.Pairwise Call.Apart)
    (sound : σ → Prop) (start : σ) :
    Contract.Compatible (calls.map (b.contract v sound start)) := by
  intro i j c d hij hc hd s s' hguarantees
  rw [List.getElem?_map] at hc hd
  obtain ⟨c, hi, rfl⟩ := Option.map_eq_some_iff.mp hc
  obtain ⟨d, hj, rfl⟩ := Option.map_eq_some_iff.mp hd
  have hapart := Call.Apart.of_pairwise apart hij hi hj
  refine hguarantees.mono fun file k hholds hstored => ?_
  rcases hapart with ⟨-, hd⟩ | hout
  · cases d with
    | read buffer offset =>
      obtain ⟨e, -, -, -, hin⟩ := hstored
      exact absurd hin.2 (Nat.not_lt_of_le hin.1)
    | write data offset => cases hd
  · obtain ⟨q, hq, hq'⟩ := hholds.common distinct hstored
    have hle := d.length_data_le
    refine hout q ⟨hq, ?_⟩
    unfold InRange at *
    omega

/-- What is in the files after the calls: the data of each, and elsewhere what was there
before. -/
structure Merged (b : Backing Handle File σ) (v : Volume Handle Cache) (calls : List Call)
    (before after : σ) : Prop where
  stores : ∀ c ∈ calls, b.Stores v c after
  kept : ∀ file i, (∀ c ∈ calls, ¬ b.Holds v c.offset c.data.length file i) →
    b.byte after file i = b.byte before file i

/-- Only one content of the files comes into question. -/
theorem Merged.same {calls' : List Call} {before after after' : σ}
    (h : b.Merged v calls before after) (h' : b.Merged v calls' before after')
    (hmem : ∀ c, c ∈ calls' ↔ c ∈ calls) : b.Same after after' := by
  intro file i
  by_cases hheld : ∃ c ∈ calls, b.Holds v c.offset c.data.length file i
  · obtain ⟨c, hc, e, he, rfl, hi, hin⟩ := hheld
    have hbyte := h.stores c hc e he i hi hin
    have hbyte' := h'.stores c ((hmem c).mpr hc) e he i hi hin
    exact Option.some.inj (hbyte'.symm.trans hbyte)
  · have hout : ∀ c ∈ calls, ¬ b.Holds v c.offset c.data.length file i :=
      fun c hc hholds => hheld ⟨c, hc, hholds⟩
    rw [h.kept file i hout, h'.kept file i fun c hc => hout c ((hmem c).mp hc)]

theorem coherent_contracts (b : Backing Handle File σ) (v : Volume Handle Cache) (sound : σ → Prop)
    (start : σ) (calls : List Call) :
    ∀ c ∈ calls.map (b.contract v sound start), c.Coherent := by
  intro c hc
  obtain ⟨c, -, rfl⟩ := List.mem_map.mp hc
  exact coherent_contract b v sound start c

section Together

variable (faultless : b.Faultless host v sound) (distinct : b.Distinct v)
  (uncached : v.cache = none) (patience : Nat) (hs : sound state)

include faultless distinct uncached hs

theorem Faultless.allMeet (calls : List Call) :
    Program.AllMeet host (calls.map (b.contract v sound state))
      (calls.map (·.perform patience v), state) := by
  refine ⟨by rw [List.length_map, List.length_map], fun i c p hc hp => ?_⟩
  rw [List.getElem?_map] at hc hp
  obtain ⟨c, hi, rfl⟩ := Option.map_eq_some_iff.mp hc
  rw [hi, Option.map_some] at hp
  obtain rfl := Option.some.inj hp
  exact faultless.meets distinct uncached patience c hs

variable (apart : calls.Pairwise Call.Apart) (turns : List Nat)

include apart

/-- A call that has come to its end answers as it does alone. -/
theorem Faultless.interleave_answer {i : Nat} {c : Call} {outcome : Outcome}
    (hc : calls[i]? = some c)
    (hdone : (Program.interleave host turns (calls.map (·.perform patience v), state)).1[i]? =
      some (.done outcome)) :
    outcome = c.answer (b.flat v state) ∧
      b.Stores v c (Program.interleave host turns (calls.map (·.perform patience v), state)).2 := by
  have coherent := coherent_contracts b v sound state calls
  have hmeet := (faultless.allMeet distinct uncached patience hs calls).interleave coherent
    (compatible_contracts distinct apart sound state) turns
  have hcontract : (calls.map (b.contract v sound state))[i]? = some (b.contract v sound state c) := by
    rw [List.getElem?_map, hc, Option.map_some]
  obtain ⟨hanswer, -, hstores⟩ := hmeet.ends coherent hcontract hdone
  exact ⟨hanswer, hstores⟩

variable {outcomes : List Outcome}
  (hdone : (Program.interleave host turns (calls.map (·.perform patience v), state)).1 =
    outcomes.map .done)

include hdone

theorem Faultless.interleave_outcome {i : Nat} {c : Call} (hc : calls[i]? = some c) :
    outcomes[i]? = some (c.answer (b.flat v state)) ∧
      b.Stores v c (Program.interleave host turns (calls.map (·.perform patience v), state)).2 := by
  have hlength := Program.length_interleave host turns (calls.map (·.perform patience v), state)
  rw [hdone, List.length_map, List.length_map] at hlength
  have hi := (List.getElem?_eq_some_iff.mp hc).1
  have houtcome : outcomes[i]? = some outcomes[i] := List.getElem?_eq_getElem (by omega)
  obtain ⟨hanswer, hstores⟩ := faultless.interleave_answer distinct uncached patience hs apart turns
    hc (by rw [hdone, List.getElem?_map, houtcome, Option.map_some])
  exact ⟨by rw [houtcome, hanswer], hstores⟩

/-- When all have come to their end, each has the answer that it has alone. -/
theorem Faultless.interleave_answers : outcomes = calls.map (·.answer (b.flat v state)) := by
  have hlength := Program.length_interleave host turns (calls.map (·.perform patience v), state)
  rw [hdone, List.length_map, List.length_map] at hlength
  apply List.ext_getElem?
  intro i
  rw [List.getElem?_map]
  cases hc : calls[i]? with
  | none =>
    have hle := List.getElem?_eq_none_iff.mp hc
    exact List.getElem?_eq_none (by omega)
  | some c =>
    exact (faultless.interleave_outcome distinct uncached patience hs apart turns hdone hc).1

theorem Faultless.interleave_merged :
    b.Merged v calls state
      (Program.interleave host turns (calls.map (·.perform patience v), state)).2 where
  stores c hc := by
    obtain ⟨i, hi⟩ := List.mem_iff_getElem?.mp hc
    exact (faultless.interleave_outcome distinct uncached patience hs apart turns hdone hi).2
  kept := by
    have hkept := (faultless.allMeet distinct uncached patience hs calls).kept
      (coherent_contracts b v sound state calls)
      (compatible_contracts distinct apart sound state)
      (Leaves.refl b sound fun file i => ∀ c ∈ calls, ¬ b.Holds v c.offset c.data.length file i)
      Leaves.trans (fun d hd s s' hguarantees => ?_) turns
    · exact (hkept hs).2
    · obtain ⟨c, hc, rfl⟩ := List.mem_map.mp hd
      exact hguarantees.mono fun file i hout => hout c hc

end Together

/-- A batch of reads is answered in the order of its requests, in whatever order its pool makes
the calls. -/
theorem Faultless.run_readEach (faultless : b.Faultless host v sound) (distinct : b.Distinct v)
    (uncached : v.cache = none) (pool : Pool Handle Cache Reading) (patience : Nat)
    (requests : List Volume.ReadRequest) (hs : sound state) :
    ((v.readEach pool patience requests).run host state).1 = requests.map fun r =>
      ⟨FlatArray.read (b.flat v state) r.buffer.length r.offset, .ok r.buffer.length⟩ := by
  have apart : (requests.map Call.ofRequest).Pairwise Call.Apart := by
    rw [List.pairwise_map]
    exact List.pairwise_of_forall fun _ _ => .inl ⟨rfl, rfl⟩
  -- The pool's run is one of the interleavings of its reads, each of which answers as it does alone.
  obtain ⟨turns, hturns⟩ :=
    ((pool.in_turns (requests.map fun r => v.read patience r.buffer r.offset)).map
      Outcome.reading).run host state
  have hthreads : ((requests.map fun r => v.read patience r.buffer r.offset).map fun p =>
      p.bind fun reading => .done (Outcome.reading reading)) =
      (requests.map Call.ofRequest).map (·.perform patience v) := by
    rw [List.map_map, List.map_map]
    rfl
  rw [hthreads] at hturns
  have hanswers := faultless.interleave_answers distinct uncached patience hs apart turns
    (congrArg Prod.fst hturns)
  rw [Program.run_bind, Program.run_done, List.map_map] at hanswers
  have hinjective : Function.Injective (List.map Outcome.reading) :=
    fun _ _ h => (List.map_inj_right fun _ _ h => Outcome.reading.inj h).mp h
  apply hinjective
  rw [List.map_map]
  exact hanswers

/-- Reads and writes that are under way at the same time, no write of which meets another call,
all come to their end; each answers as it does alone, and the files end as they do after the
calls one by one, in whatever order. A batch of reads answers in the order of its requests, in
whatever order its pool makes the calls. -/
theorem disjoint_calls_interleave (distinct : b.Distinct v) (faultless : b.Faultless host v sound)
    (uncached : v.cache = none) (patience : Nat) (calls : List Call)
    (pool : Pool Handle Cache Reading) (batch : List Volume.ReadRequest)
    (apart : (calls ++ batch.map Call.ofRequest).Pairwise Call.Apart) (hs : sound state) :
    let all := calls ++ batch.map Call.ofRequest
    let threads := (all.map (·.perform patience v), state)
    (∀ turns, Program.Fair turns all.length →
      ∃ n, ∃ outcomes : List Outcome, (Program.after host turns threads n).1 = outcomes.map .done) ∧
    (∀ (turns : List Nat) (i : Nat) (c : Call) (outcome : Outcome), all[i]? = some c →
      (Program.interleave host turns threads).1[i]? = some (.done outcome) →
      outcome = ((c.perform patience v).run host state).1) ∧
    (∀ (turns : List Nat) (outcomes : List Outcome),
      (Program.interleave host turns threads).1 = outcomes.map .done →
      outcomes.drop calls.length =
          ((v.readEach pool patience batch).run host state).1.map .reading ∧
        ∀ order : List Call, order.Perm all →
          b.Same (Program.runEach host (order.map (·.perform patience v)) state).2
            (Program.interleave host turns threads).2) ∧
    ((v.readEach pool patience batch).run host state).1 =
      batch.map fun r => ((v.read patience r.buffer r.offset).run host state).1 := by
  intro all threads
  refine ⟨fun turns fair => ?_, fun turns i c outcome hc hdone => ?_,
    fun turns outcomes hdone => ⟨?_, fun order hperm => ?_⟩, ?_⟩
  · refine Program.all_done host threads ?_
    rwa [List.length_map]
  · rw [faultless.run_perform distinct uncached patience c hs]
    exact (faultless.interleave_answer distinct uncached patience hs apart turns hc hdone).1
  · obtain rfl := faultless.interleave_answers distinct uncached patience hs apart turns hdone
    rw [List.map_append, List.drop_left' (List.length_map _), List.map_map,
      faultless.run_readEach distinct uncached pool patience batch hs, List.map_map]
    rfl
  · have hmerged := faultless.interleave_merged distinct uncached patience hs apart turns hdone
    -- The calls one by one are one more order of turns, so that their end is a merge as well.
    obtain ⟨turns', hturns'⟩ :=
      Program.interleave_runEach host (order.map (·.perform patience v)) state
    have hapart : order.Pairwise Call.Apart := (hperm.pairwise_iff Call.Apart.symm).mpr apart
    have hmerged' := faultless.interleave_merged distinct uncached patience hs hapart turns'
      (congrArg Prod.fst hturns')
    rw [hturns'] at hmerged'
    exact hmerged'.same hmerged fun c => hperm.mem_iff.symm
  · rw [faultless.run_readEach distinct uncached pool patience batch hs]
    refine List.map_congr_left fun r _ => ?_
    obtain ⟨after, hrun, -⟩ := faultless.run_readFiles patience r.buffer r.offset hs
    rw [Volume.read_uncached uncached, hrun]

/-- A write and a read, and a batch of two reads in which one goes past the end, in turns over
files that move a byte or two at a time. -/
theorem disjoint_calls_interleave_pocket :
    let v : Volume Nat Unit := ⟨⟨[⟨0, 3, 0⟩, ⟨3, 3, 1⟩], 6, ⟨rfl, rfl, rfl⟩, by decide⟩, none⟩
    let s : Pocket := ⟨⟨fun _ _ => 4, [.upTo 1, .upTo 1, .upTo 2, .upTo 1]⟩, fun _ => none⟩
    let calls : List Call := [.write [1, 2, 3] 1, .read [9, 9] 4]
    let batch : List Volume.ReadRequest := [⟨0, [9]⟩, ⟨4, [8, 8, 8]⟩]
    let all := calls ++ batch.map Call.ofRequest
    let reached := Program.interleave (Pocket.host 0) [0, 1, 3, 0, 2, 1, 0, 3]
      (all.map (·.perform 0 v), s)
    reached.1 = [.writing (.ok 3), .reading ⟨[4, 4], .ok 2⟩, .reading ⟨[4], .ok 1⟩,
        .reading ⟨[4, 4, 0], .ok 3⟩].map .done ∧
      ((v.readEach .oneByOne 0 batch).run (Pocket.host 0) s).1 = [⟨[4], .ok 1⟩, ⟨[4, 4, 0], .ok 3⟩] ∧
      Pocket.backing.Same
        (Program.runEach (Pocket.host 0) (all.reverse.map (·.perform 0 v)) s).2 reached.2 := by
  intro v s calls batch all reached
  have distinct : Pocket.backing.Distinct v := by
    rw [Distinct, List.nodup_iff_pairwise_ne]
    decide
  have apart : all.Pairwise Call.Apart := by
    have hwrite : ∀ c : Call, 4 ≤ c.offset ∨ c.offset + c.length ≤ 1 →
        Call.Apart (.write [1, 2, 3] 1) c := by
      refine fun c hc => .inr fun q hq => ?_
      simp only [InRange, Call.offset, Call.length, List.length_cons, List.length_nil] at *
      omega
    have hread : ∀ buffer offset buffer' offset',
        Call.Apart (.read buffer offset) (.read buffer' offset') :=
      fun _ _ _ _ => .inl ⟨rfl, rfl⟩
    simp [all, calls, batch, Call.ofRequest, hread, hwrite, Call.offset, Call.length]
  have hsound : s.Sound 0 :=
    ⟨by simp [s], fun _ _ => rfl⟩
  have hdone : reached.1 = [.writing (.ok 3), .reading ⟨[4, 4], .ok 2⟩, .reading ⟨[4], .ok 1⟩,
      .reading ⟨[4, 4, 0], .ok 3⟩].map .done := by
    dsimp only [reached, all, calls, batch, v, s]
    rfl
  obtain ⟨-, -, hends, -⟩ := disjoint_calls_interleave distinct
    (Pocket.faultless v 0 fun _ => none) rfl 0 calls .oneByOne batch apart ⟨hsound, rfl⟩
  obtain ⟨hbatch, hsame⟩ := hends [0, 1, 3, 0, 2, 1, 0, 3] _ hdone
  refine ⟨hdone, ?_, hsame all.reverse (List.reverse_perm all)⟩
  have hinjective : Function.Injective (List.map Outcome.reading) :=
    fun _ _ h => (List.map_inj_right fun _ _ h => Outcome.reading.inj h).mp h
  exact hinjective hbatch.symm

end Backing

end FlatVolume
