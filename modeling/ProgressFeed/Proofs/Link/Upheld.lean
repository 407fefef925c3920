import ProgressFeed.Proofs.Link.Sound

/-!
# Every step of a link upholds what always holds
-/

namespace ProgressFeed.Link

variable {l : Link} {w : Ledger} {stack : List Resume} {a : Answers}

theorem Upheld.loose_of_channel (h : l.Upheld w stack) (hc : l.channel ≠ none) :
    l.Loose w stack :=
  ⟨h.sound, h.held.below_of_channel h.sound hc, h.stamped, h.alarmed, h.numbered⟩

theorem Upheld.loose_of_current {r : Resume} (h : l.Upheld w (r :: stack))
    (hg : r.generation? = some l.generation) : l.Loose w stack :=
  ⟨h.sound, h.held.below_tail hg, h.stamped, h.alarmed, h.numbered⟩

theorem Upheld.tail {r : Resume} (h : l.Upheld w (r :: stack))
    (hg : r.generation? ≠ some l.generation) : l.Upheld w stack :=
  ⟨h.sound, h.held.tail hg, h.stamped, h.alarmed, h.numbered⟩

/-! ## What the link does of its own accord -/

theorem Loose.tryLater (h : l.Loose w stack) (hs : l.state = .disconnected)
    (ha : l.alarm = none) (ht : l.terminal = false) (hlt : l.attempts < l.backoff.maxAttempts) :
    (l.tryLater (w.outside a)).Upholds w stack where
  sound := by
    have hc := h.sound.disconnected hs
    constructor <;> simp [Link.tryLater, hs, hc, ht]
    exact hlt
  held := Below.held h.below (by simp [Link.tryLater, hs])
  stamped := h.stamped.same rfl rfl rfl rfl
  alarmed := by
    change Clock.setFor (w.clock.set _ (.reopen l.id)) (.reopen l.id) = [w.clock.next]
    rw [Clock.setFor_set_self, h.alarmed, ha]
    rfl
  numbered := Ledger.numbered_obeyAll h.numbered _

theorem Loose.settle (h : l.Loose w stack) (hs : l.state = .disconnected)
    (ha : l.alarm = none) (ht : l.terminal = false) (c : Channel.Closing) (i : Bool) :
    (l.settle l.generation c i (w.outside a)).Upholds w stack := by
  have hheld : l.Held stack := h.below.held (by simp [hs])
  have hc := h.sound.disconnected hs
  cases i with
  | true =>
    rw [settle_of_intentional]
    exact ⟨h.sound, hheld, h.stamped, h.alarmed, h.numbered⟩
  | false =>
    by_cases hlt : l.attempts < l.backoff.maxAttempts
    · cases hr : l.reported with
      | true =>
        rw [settle_of_reported hlt hr]
        exact h.tryLater hs ha ht hlt
      | false =>
        rw [settle_of_not_reported hlt hr]
        exact ⟨h.sound, h.below.push rfl ⟨hs, ha, ht, hlt⟩, h.stamped, h.alarmed, h.numbered⟩
    · rw [settle_of_exhausted (Nat.not_lt.1 hlt)]
      refine ⟨?_, ?_, h.stamped.same rfl rfl rfl rfl, h.alarmed, h.numbered⟩
      · have hle := h.sound.attempts
        constructor <;> simp [hs, hc, ha]
        exact hle
      · exact Held.push_none (Below.held h.below (by simp [hs])) rfl

theorem Loose.closed (h : l.Loose w stack) (hs : l.state ≠ .disconnected) (c : Channel.Closing) :
    (l.closed l.generation c (w.outside a)).Upholds w stack := by
  have ha : l.alarm = none := by
    by_contra ha
    exact hs (h.sound.alarm ha).1
  have ht : l.terminal = false := by
    by_contra ht
    exact hs (h.sound.terminal (by simpa using ht))
  rw [closed_of_live hs]
  refine ⟨?_, ?_, h.stamped.leave rfl (Nat.lt_succ_self _) rfl rfl, h.alarmed, h.numbered⟩
  · have hle := h.sound.attempts
    constructor <;> simp [ha]
    exact hle
  · refine Below.push ⟨h.below.sorted, fun k hk ↦ ?_⟩ rfl ⟨rfl, ha, ht⟩
    exact Nat.lt_succ_of_lt (h.below.lt k hk)

theorem Loose.dial (h : l.Loose w stack) (hs : l.state = .connecting) (hc : l.channel = none) :
    (l.dial l.generation (w.outside a)).Upholds w stack := by
  have ha : l.alarm = none := by
    by_contra ha
    simp [(h.sound.alarm ha).1] at hs
  have hi := h.sound.intentional (by simp [hs])
  have hle := h.sound.attempts
  have ht : l.terminal = false := by
    by_contra ht
    simp [h.sound.terminal (by simpa using ht)] at hs
  cases htok : a.token with
  | none =>
    rw [dial_of_no_token hs htok]
    refine ⟨?_, Held.push_none (Below.held h.below (by simp)) rfl, ?_, h.alarmed, h.numbered⟩
    · constructor <;> simp [hc, ha]
      exact hle
    · exact h.stamped.same rfl rfl rfl rfl
  | some token =>
    cases hch : a.channel with
    | none =>
      rw [dial_of_no_channel htok (by simp [Ledger.outside, hch])]
      refine ⟨?_, Below.push h.below rfl ⟨hs, rfl⟩, ?_, h.alarmed, h.numbered⟩
      · constructor <;> simp [hs, hi, ha, ht]
        exact hle
      · exact h.stamped.same rfl rfl hc.symm rfl
    | some isDuplex =>
      rw [dial_of_channel htok (by simp only [Ledger.outside, hch, Option.map_some]; rfl)]
      refine ⟨?_, Below.held h.below (by simp), h.stamped.open hc rfl, h.alarmed, h.numbered⟩
      constructor <;> simp [hs, hi, ha, ht]
      exact hle

/-! ## What is done to the link -/

theorem anew_stopCommand_stamped (h : l.Stamped w) (hc : l.channel = none) :
    l.anew.Stamped (w.obeyAll l.stopCommand) :=
  h.leave rfl (Nat.lt_succ_self _) hc opened_stopCommand

theorem Upheld.connect (h : l.Upheld w stack) : (l.connect (w.outside a)).Upholds w stack := by
  by_cases hb : l.isBusy = true
  · rw [connect_of_isBusy hb]
    exact h
  obtain ⟨ht, hn, hc⟩ := isBusy_eq_false.1 (Bool.eq_false_iff.2 hb)
  have hbelow : Below (l.generation + 1) stack := h.held.below_of_lt (Nat.lt_succ_self _)
  have hle := h.sound.attempts
  cases hs : l.state with
  | connected => exact absurd hs hn
  | disconnected =>
    have hc := h.sound.disconnected hs
    rw [connect_of_disconnected ht hs]
    refine ⟨?_, Below.push hbelow rfl ⟨rfl, hc⟩, (anew_stopCommand_stamped h.stamped hc).same
      rfl rfl rfl rfl, setFor_stopCommand h.alarmed, Ledger.numbered_obeyAll h.numbered _⟩
    constructor <;> simp [anew, ht]
    exact hle
  | connecting =>
    have hc := hc hs
    have ha : l.alarm = none := by
      by_contra ha
      simp [(h.sound.alarm ha).1] at hs
    have hloose : l.anew.Loose w stack := by
      refine ⟨?_, hbelow, h.stamped.leave rfl (Nat.lt_succ_self _) hc rfl, ?_, h.numbered⟩
      · constructor <;> simp [anew, hs, ht]
        exact hle
      · exact h.alarmed.trans (by simp [anew, ha])
    rw [connect_of_connecting ht hs hc]
    simp only [stopCommand, ha, Option.map_none, Option.toList_none]
    exact hloose.dial hs hc

theorem Upheld.disconnect (h : l.Upheld w stack) : l.disconnect.Upholds w stack := by
  have hbelow : Below l.apart.generation stack := h.held.below_of_lt (Nat.lt_succ_self _)
  have hsound : l.apart.Sound := by
    constructor <;> simp [apart]
  have hstamped : l.apart.Stamped (w.obeyAll l.farewell) :=
    h.stamped.leave rfl (Nat.lt_succ_self _) rfl opened_farewell
  have halarmed : (w.obeyAll l.farewell).clock.setFor (.reopen l.id) = [] := by
    rw [clock_farewell]
    exact setFor_stopCommand h.alarmed
  have hnumbered := Ledger.numbered_obeyAll h.numbered l.farewell
  by_cases hs : l.state = .disconnected
  · rw [disconnect_of_disconnected hs]
    exact ⟨hsound, hbelow.held (by simp [apart]), hstamped, halarmed, hnumbered⟩
  · rw [disconnect_of_live hs]
    exact ⟨hsound, Held.push_none (hbelow.held (by simp [apart])) rfl, hstamped, halarmed, hnumbered⟩

/-- A notice counts just when the channel it comes from is held. -/
theorem Upheld.held_iff (h : l.Upheld w stack) {i : Nat} {s : Stamp} (hi : w.opened[i]? = some s)
    (hl : s.link = l.id) : l.channel.map Channel.Held.id = some i ↔ l.generation = s.generation := by
  rw [← h.stamped.channel i, hi]
  cases s
  simp only [stamp, Option.some.injEq, Stamp.mk.injEq]
  exact ⟨fun he ↦ he.2.symm, fun he ↦ ⟨hl, he.symm⟩⟩

theorem Upheld.channel_of_stamp (h : l.Upheld w stack) {i : Nat} {s : Stamp}
    (hi : w.opened[i]? = some s) (hl : s.link = l.id) (hg : l.generation = s.generation) :
    l.channel ≠ none := by
  intro hc
  have hm := (h.held_iff hi hl).2 hg
  simp [hc] at hm

theorem Upheld.opened (h : l.Upheld w stack) (hc : l.channel ≠ none) :
    (l.opened l.generation).Upholds w stack := by
  have hloose := h.loose_of_channel hc
  have hd : l.state ≠ .disconnected := fun hs ↦ hc (h.sound.disconnected hs)
  have hi := h.sound.intentional hd
  have ha : l.alarm = none := by
    by_contra ha
    exact hd (h.sound.alarm ha).1
  have ht : l.terminal = false := by
    by_contra ht
    exact hd (h.sound.terminal (by simpa using ht))
  by_cases hs : l.state = .connected
  · rw [opened_of_connected hs]
    refine ⟨?_, Below.held hloose.below fun _ ↦ hc, h.stamped.same rfl rfl rfl rfl, h.alarmed,
      h.numbered⟩
    constructor <;> simp [hs, hc, ha, ht, hi]
  · rw [opened_of_ne_connected hs]
    refine ⟨?_, Held.push_none (Below.held hloose.below fun _ ↦ hc) rfl, h.stamped.same rfl rfl rfl rfl,
      h.alarmed, h.numbered⟩
    constructor <;> simp [hc, ha, ht, hi]

theorem Upheld.failed (h : l.Upheld w stack) (hc : l.channel ≠ none) (message : Bytes) :
    (l.failed l.generation message).Upholds w stack := by
  rw [failed_self]
  have hl := h.sound
  exact ⟨⟨hl.connected, hl.disconnected, hl.alarm, hl.terminal, hl.attempts, hl.intentional⟩,
    Held.push_none (Below.held (h.loose_of_channel hc).below fun _ ↦ hc) rfl,
    h.stamped.same rfl rfl rfl rfl, h.alarmed, h.numbered⟩

theorem Upheld.notice (h : l.Upheld w stack) {i : Nat} {s : Stamp}
    (hi : w.opened[i]? = some s) (hl : s.link = l.id) (n : Channel.Notice) :
    (l.notice s.generation n (w.outside a)).Upholds w stack := by
  by_cases hg : l.generation = s.generation
  · have hc := h.channel_of_stamp hi hl hg
    rw [← hg]
    cases n with
    | opened => exact h.opened hc
    | frame => exact h
    | failed message => exact h.failed hc message
    | closed c =>
      exact (h.loose_of_channel hc).closed (fun hs ↦ hc (h.sound.disconnected hs)) c
  · rw [notice_of_ne hg]
    exact h

theorem Upheld.calm (h : l.Upheld w stack) {alarm : Nat} (ha : l.alarm = some alarm) :
    Upheld { l with alarm := none } { w with clock := w.clock.stop alarm } stack := by
  have hl := h.sound
  have hh := h.held
  refine ⟨⟨hl.connected, hl.disconnected, by simp, hl.terminal, hl.attempts, hl.intentional⟩,
    ⟨hh.sorted, hh.le, fun r hr hg ↦ ?_, hh.dialing⟩, h.stamped.same rfl rfl rfl rfl, ?_,
    h.numbered.stop alarm⟩
  · have hf := hh.fits r hr hg
    cases r with
    | dial | abandon => exact hf
    | settle => exact ⟨hf.1, rfl, hf.2.2⟩
    | retry => exact ⟨hf.1, rfl, hf.2.2⟩
    | nothing | deny => trivial
  · change (w.clock.stop alarm).setFor (.reopen l.id) = []
    simp [Clock.setFor_stop, h.alarmed, ha]

theorem rang_of_alarm {alarm : Nat} (ha : l.alarm = some alarm) (o : Outside) :
    l.rang alarm o = connect { l with alarm := none } o := by
  simp [Link.rang, ha]

theorem Upheld.rang (h : l.Upheld w stack) {alarm : Nat}
    (ha : alarm ∈ w.clock.setFor (.reopen l.id)) :
    let w' := { w with clock := w.clock.stop alarm }
    (l.rang alarm (w'.outside a)).Upholds w' stack := by
  have hal : l.alarm = some alarm := by
    rw [h.alarmed] at ha
    exact Option.mem_toList.1 ha
  simp only [rang_of_alarm hal]
  exact (h.calm hal).connect

theorem Upheld.resume {r : Resume} (h : l.Upheld w (r :: stack)) :
    (l.resume (w.outside a) r).Upholds w stack := by
  by_cases hg : r.generation? = some l.generation
  · have hloose := h.loose_of_current hg
    have hf := h.held.fits r (List.mem_cons_self ..) hg
    cases r with
    | nothing | deny => cases hg
    | dial g =>
      cases hg
      exact hloose.dial hf.1 hf.2
    | abandon g =>
      cases hg
      exact hloose.closed (by simp [hf.1]) .unavailable
    | settle g c i =>
      cases hg
      exact hloose.settle hf.1 hf.2.1 hf.2.2 c i
    | retry g =>
      cases hg
      change Step.Upholds (Link.retry ..) _ _
      rw [retry_self]
      exact hloose.tryLater hf.1 hf.2.1 hf.2.2.1 hf.2.2.2
  · have ht := h.tail hg
    cases hr : r.generation? with
    | some g =>
      rw [resume_of_ne hr fun he ↦ hg (hr.trans (congrArg some he.symm))]
      exact ht
    | none =>
      cases r with
      | dial | abandon | settle | retry => cases hr
      | nothing => exact ht
      | deny => exact ⟨ht.sound, ht.held.push_none rfl, ht.stamped, ht.alarmed, ht.numbered⟩

end ProgressFeed.Link
