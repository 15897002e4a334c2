import WirelessMesh.Kernel
import WirelessMesh.Lib.Lists
import WirelessMesh.Lib.Runs

/-!
# The channels of the span

The card drivers register their channels with the one span of the module and take them out
again when a card goes. A channel is numbered by the count of the channels before it, and
every file operation finds its channel by that number.
-/

namespace WirelessMesh
namespace Slic

def asMaxChannels : ℕ := 16

/-- `struct as_dev_chan`, as far as the span reads it, with its address. -/
structure SpanChan where
  addr : ℕ
  name : String
  channo : ℕ
  card : Option ℕ
deriving DecidableEq

/-- `master_span` and `chan_lock`. The list `chans` is the chain of the `next` pointers, and
`card` is the field `private`. -/
structure Span where
  chans : List SpanChan
  count : ℕ
  card : Option ℕ
  locked : Bool
deriving DecidableEq

namespace Span

def masterSpan : Span := ⟨[], 0, none, false⟩

def getChannel (span : Span) (channo : ℕ) : Option SpanChan :=
  span.chans.find? fun ch => ch.channo = channo

/-- `as_channel_register`, with its answer. A name or a channel that is there already is
refused with the lock still held. `none` is a call that does not come back, because of that
lock, or that writes behind `as_proc_entries`. -/
def channelRegister (span : Span) (chan : SpanChan) : Option (ℤ × Span) :=
  if span.locked then none
  else if span.chans.any fun ch => ch.addr = chan.addr ∨ ch.name = chan.name then
    some (-eexist, { span with locked := true })
  else
    let chan := { chan with channo := span.count }
    let span := { span with chans := span.chans ++ [chan], count := span.count + 1 }
    if chan.channo < asMaxChannels then
      some (0, { span with card := span.card.or chan.card })
    else none

/-- The loop of `as_channel_unregister`. The cell that is found is unlinked and freed. -/
def unlink (span : Span) (addr : ℕ) : Span :=
  if span.chans.any fun ch => ch.addr = addr then
    { span with
      chans := span.chans.eraseP fun ch => ch.addr = addr
      count := span.count - 1 }
  else span

def channelUnregister (span : Span) (addr : ℕ) : Option Span :=
  if span.locked then none
  else
    let span := span.unlink addr
    some { span with card := if span.count = 0 then none else span.card }

inductive Call
  | register (chan : SpanChan)
  | unregister (addr : ℕ)

def step : Call → Span → Option Span
  | .register chan, span => (span.channelRegister chan).map Prod.snd
  | .unregister addr, span => span.channelUnregister addr

structure Identified (span : Span) : Prop where
  count_eq : span.count = span.chans.length
  distinct : (span.chans.map SpanChan.channo).Nodup
  below : ∀ ch ∈ span.chans, ch.channo < span.count
  found : ∀ ch ∈ span.chans, span.getChannel ch.channo = some ch

/-- A channel that is taken out has the highest number. -/
def TakesLast : Call → Span → Prop
  | .register _, _ => True
  | .unregister addr, span => ∀ ch ∈ span.chans, ch.addr = addr → ch.channo + 1 = span.count

/-- What every call keeps: the count, and one cell for each address. -/
structure Linked (span : Span) : Prop where
  count_eq : span.count = span.chans.length
  addr_nodup : (span.chans.map SpanChan.addr).Nodup

variable {span span' : Span} {addr : ℕ} {chan : SpanChan}

/-! ## What the calls do -/

theorem channelRegister_cases {res : ℤ} (h : span.channelRegister chan = some (res, span')) :
    (span'.chans = span.chans ∧ span'.count = span.count) ∨
      ((∀ ch ∈ span.chans, ch.addr ≠ chan.addr) ∧
        span'.chans = span.chans ++ [{ chan with channo := span.count }] ∧
        span'.count = span.count + 1) := by
  dsimp only [channelRegister] at h
  split_ifs at h with hlock hany hroom
  · obtain ⟨-, rfl⟩ := Prod.mk.inj (Option.some.inj h)
    exact .inl ⟨rfl, rfl⟩
  · obtain ⟨-, rfl⟩ := Prod.mk.inj (Option.some.inj h)
    have hfresh : ∀ ch ∈ span.chans, ch.addr ≠ chan.addr ∧ ch.name ≠ chan.name := by
      simpa using hany
    exact .inr ⟨fun ch hch => (hfresh ch hch).1, rfl, rfl⟩

theorem unlink_cases (span : Span) (addr : ℕ) :
    ((∀ ch ∈ span.chans, ch.addr ≠ addr) ∧ span.unlink addr = span) ∨
      ∃ before ch after, span.chans = before ++ ch :: after ∧ ch.addr = addr ∧
        span.unlink addr = { span with chans := before ++ after, count := span.count - 1 } := by
  unfold unlink
  split_ifs with hany
  · right
    obtain ⟨ch, hch, haddr⟩ := List.any_eq_true.mp hany
    obtain ⟨ch', before, after, -, haddr', hlist, herase⟩ :=
      List.exists_of_eraseP (p := fun c => decide (c.addr = addr)) hch haddr
    rw [herase]
    exact ⟨before, ch', after, hlist, of_decide_eq_true haddr', rfl⟩
  · left
    exact ⟨by simpa using hany, rfl⟩

theorem channelUnregister_cases (h : span.channelUnregister addr = some span') :
    ((∀ ch ∈ span.chans, ch.addr ≠ addr) ∧
        span'.chans = span.chans ∧ span'.count = span.count) ∨
      ∃ before ch after, span.chans = before ++ ch :: after ∧ ch.addr = addr ∧
        span'.chans = before ++ after ∧ span'.count = span.count - 1 := by
  unfold channelUnregister at h
  by_cases hlock : span.locked = true
  · rw [if_pos hlock] at h
    cases h
  rw [if_neg hlock] at h
  obtain rfl := Option.some.inj h
  rcases unlink_cases span addr with ⟨hall, heq⟩ | ⟨before, ch, after, hlist, haddr, heq⟩
  · rw [heq]
    exact .inl ⟨hall, rfl, rfl⟩
  · rw [heq]
    exact .inr ⟨before, ch, after, hlist, haddr, rfl, rfl⟩

theorem Linked.step {call : Call} (h : span.Linked) (hstep : step call span = some span') :
    span'.Linked := by
  have hcount := h.count_eq
  have hnodup := h.addr_nodup
  cases call with
  | register chan =>
      obtain ⟨⟨res, s⟩, hreg, rfl⟩ := Option.map_eq_some_iff.mp hstep
      rcases channelRegister_cases hreg with ⟨hchans, hcount'⟩ | ⟨hfresh, hchans, hcount'⟩
      · exact ⟨by rw [hchans, hcount', hcount], by rw [hchans]; exact hnodup⟩
      · refine ⟨by rw [hchans, hcount', hcount, List.length_append]; rfl, ?_⟩
        rw [hchans]
        exact Lists.nodup_map_concat hnodup hfresh
  | unregister addr =>
      rcases channelUnregister_cases hstep with
        ⟨-, hchans, hcount'⟩ | ⟨before, ch, after, hlist, -, hchans, hcount'⟩
      · exact ⟨by rw [hchans, hcount', hcount], by rw [hchans]; exact hnodup⟩
      · rw [hlist] at hnodup hcount
        refine ⟨?_, ?_⟩
        · rw [hchans, hcount', hcount]
          simp
        · rw [hchans]
          exact hnodup.sublist (((List.sublist_cons_self ch after).append_left before).map _)

/-! ## Numbers -/

theorem Identified.of_distinct (hcount : span.count = span.chans.length)
    (hdistinct : (span.chans.map SpanChan.channo).Nodup)
    (hbelow : ∀ ch ∈ span.chans, ch.channo < span.count) : span.Identified where
  count_eq := hcount
  distinct := hdistinct
  below := hbelow
  found := fun _ hch => Lists.find?_key hdistinct hch

instance (span : Span) : Decidable span.Identified :=
  decidable_of_iff (span.count = span.chans.length ∧ (span.chans.map SpanChan.channo).Nodup ∧
      ∀ ch ∈ span.chans, ch.channo < span.count)
    ⟨fun h => .of_distinct h.1 h.2.1 h.2.2, fun h => ⟨h.count_eq, h.distinct, h.below⟩⟩

theorem identified_congr (hchans : span'.chans = span.chans) (hcount : span'.count = span.count)
    (h : span.Identified) : span'.Identified := by
  apply Identified.of_distinct
  · rw [hchans, hcount, h.count_eq]
  · rw [hchans]
    exact h.distinct
  · rw [hchans, hcount]
    exact h.below

theorem identified_register {res : ℤ} (h : span.Identified)
    (hreg : span.channelRegister chan = some (res, span')) : span'.Identified := by
  rcases channelRegister_cases hreg with ⟨hchans, hcount⟩ | ⟨-, hchans, hcount⟩
  · exact identified_congr hchans hcount h
  · apply Identified.of_distinct
    · rw [hchans, hcount, h.count_eq, List.length_append]
      rfl
    · rw [hchans]
      apply Lists.nodup_map_concat h.distinct
      intro ch hch
      exact (h.below ch hch).ne
    · intro ch hch
      rw [hchans] at hch
      rw [hcount]
      rcases List.mem_append.mp hch with hch | hch
      · exact Nat.lt_succ_of_lt (h.below ch hch)
      · obtain rfl := List.mem_singleton.mp hch
        exact Nat.lt_succ_self _

/-- The numbers that are left identify their channels when the highest one was taken out. -/
theorem identified_unlinked {before after : List SpanChan} {ch : SpanChan} (h : span.Identified)
    (hlist : span.chans = before ++ ch :: after) (hchans : span'.chans = before ++ after)
    (hcount : span'.count = span.count - 1) :
    span'.Identified ↔ ch.channo + 1 = span.count := by
  have hlength : span.count = (before ++ after).length + 1 := by
    rw [h.count_eq, hlist]
    simp
    omega
  have hdistinct : ((ch :: (before ++ after)).map SpanChan.channo).Nodup := by
    have hperm : span.chans.Perm (ch :: (before ++ after)) := hlist ▸ List.perm_middle
    exact (hperm.map _).nodup_iff.mp h.distinct
  obtain ⟨hnot, hrest⟩ := List.nodup_cons.mp hdistinct
  have hmem : ch ∈ span.chans := by simp [hlist]
  constructor
  · intro h'
    by_contra hne
    have hlt := h.below ch hmem
    apply hnot
    apply Lists.mem_of_nodup_below hrest
    · intro x hx
      obtain ⟨c, hc, rfl⟩ := List.mem_map.mp hx
      have hbelow := h'.below c (hchans ▸ hc)
      rw [List.length_map]
      omega
    · rw [List.length_map]
      omega
  · intro hlast
    apply Identified.of_distinct
    · rw [hchans]
      omega
    · rw [hchans]
      exact hrest
    · intro c hc
      rw [hchans] at hc
      have hne : c.channo ≠ ch.channo := by
        intro heq
        exact hnot (heq ▸ List.mem_map_of_mem hc)
      have hmem' : c ∈ span.chans := by
        rw [hlist]
        exact ((List.sublist_cons_self ch after).append_left before).subset hc
      have hbelow := h.below c hmem'
      omega

theorem identified_step {call : Call} (h : span.Identified) (hlinked : span.Linked)
    (hstep : step call span = some span') :
    (span'.Identified ↔ TakesLast call span) ∧ span'.Linked := by
  refine ⟨?_, hlinked.step hstep⟩
  cases call with
  | register chan =>
      obtain ⟨⟨res, s⟩, hreg, rfl⟩ := Option.map_eq_some_iff.mp hstep
      exact iff_of_true (identified_register h hreg) trivial
  | unregister addr =>
      rcases channelUnregister_cases hstep with
        ⟨hall, hchans, hcount⟩ | ⟨before, ch, after, hlist, haddr, hchans, hcount⟩
      · refine iff_of_true (identified_congr hchans hcount h) ?_
        intro ch hch haddr
        exact absurd haddr (hall ch hch)
      · rw [identified_unlinked h hlist hchans hcount]
        have hmem : ch ∈ span.chans := by simp [hlist]
        constructor
        · intro hlast c hc hc'
          -- one cell for each address: this is the cell that was unlinked
          rw [List.inj_on_of_nodup_map hlinked.addr_nodup hc hmem (hc'.trans haddr.symm)]
          exact hlast
        · intro hlast
          exact hlast ch hmem haddr

theorem linked_masterSpan : masterSpan.Linked := ⟨rfl, List.nodup_nil⟩

theorem identified_masterSpan : masterSpan.Identified :=
  Identified.of_distinct rfl List.nodup_nil (by simp [masterSpan])

/-- Along any calls from the empty span, channel numbers identify channels exactly when each
channel that is taken out has the highest number at that time. -/
theorem channel_numbers_iff (calls : List Call) :
    (∀ span, Machine.Visits step masterSpan calls span → span.Identified) ↔
      Machine.Throughout step TakesLast calls masterSpan :=
  Machine.visits_iff identified_step calls identified_masterSpan linked_masterSpan

/-- Of two channels the first is taken out: the other keeps number 1, and so does the next
channel that is registered. -/
theorem channel_numbers_clash :
    ∃ span, Machine.Visits step masterSpan
        [.register ⟨100, "fxs0", 0, none⟩, .register ⟨200, "fxs1", 0, none⟩, .unregister 100,
          .register ⟨300, "fxs2", 0, none⟩] span ∧
      span.chans = [⟨200, "fxs1", 1, none⟩, ⟨300, "fxs2", 1, none⟩] ∧
      span.getChannel 1 = some ⟨200, "fxs1", 1, none⟩ ∧ ¬span.Identified :=
  Machine.exists_visits (by decide +kernel)

end Span
end Slic
end WirelessMesh
