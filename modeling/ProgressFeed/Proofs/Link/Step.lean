import ProgressFeed.Proofs.Link.Run

/-!
# What a link does in one step

Every operation of a link either finds its generation outdated and does nothing, or does one of a
few things that depend on the state alone.
-/

namespace ProgressFeed.Link

variable {l : Link} {o : Outside}

/-- The generation to which what is left to do belongs. -/
def Resume.generation? : Resume → Option Nat
  | .dial g | .abandon g | .settle g _ _ | .retry g => some g
  | .nothing | .deny => none

/-- The link as it begins a new attempt. -/
def anew (l : Link) : Link :=
  { l with alarm := none, intentional := false, reported := false, generation := l.generation + 1 }

theorem isBusy_eq_false : l.isBusy = false ↔ l.terminal = false ∧ l.state ≠ .connected ∧
    (l.state = .connecting → l.channel = none) := by
  cases hs : l.state <;> simp [isBusy, hs]

theorem connect_of_isBusy (h : l.isBusy = true) : l.connect o = l.rest := if_pos h

theorem connect_of_disconnected (ht : l.terminal = false) (hs : l.state = .disconnected) :
    l.connect o =
      { link := { l.anew with state := .connecting }
        commands := l.stopCommand
        pause := some (.state .disconnected .connecting, .dial (l.generation + 1)) } := by
  have hb : l.isBusy = false := isBusy_eq_false.2 ⟨ht, by simp [hs], by simp [hs]⟩
  simp [connect, hb, enter, hs, anew, Step.after]

theorem connect_of_connecting (ht : l.terminal = false) (hs : l.state = .connecting)
    (hc : l.channel = none) :
    l.connect o = (l.anew.dial (l.generation + 1) o).after l.stopCommand := by
  have hb : l.isBusy = false := isBusy_eq_false.2 ⟨ht, by simp [hs], fun _ ↦ hc⟩
  simp [connect, hb, enter, hs, anew]

theorem dial_of_ne {g : Nat} (h : l.generation ≠ g) : l.dial g o = l.rest := if_neg h

theorem dial_of_no_token (hs : l.state = .connecting) (ht : o.token = none) :
    l.dial l.generation o =
      { link := { l with terminal := true, state := .disconnected }
        pause := some (.state .connecting .disconnected, .deny) } := by
  simp [dial, ht, enter, hs]

theorem dial_of_no_channel {token : Bytes} (ht : o.token = some token) (hc : o.channel = none) :
    l.dial l.generation o =
      { link := { l with channel := none, reported := true }
        commands := [.create l.source token]
        pause := some (.fault .noChannel, .abandon l.generation) } := by
  simp [dial, ht, hc, report, Step.after]

theorem dial_of_channel {token : Bytes} {c : Channel.Held} (ht : o.token = some token)
    (hc : o.channel = some c) :
    l.dial l.generation o =
      { link := { l with channel := some c }
        commands := [.create l.source token, .open c.id ⟨l.id, l.generation⟩] } := by
  simp [dial, ht, hc]

theorem closed_of_ne {g : Nat} (h : l.generation ≠ g) (c : Channel.Closing) :
    l.closed g c o = l.rest := if_neg h

theorem closed_of_live (hs : l.state ≠ .disconnected) (c : Channel.Closing) :
    l.closed l.generation c o =
      { link := { l with generation := l.generation + 1, channel := none, state := .disconnected }
        pause := some (.state l.state .disconnected,
          .settle (l.generation + 1) c (c.isNormal || l.intentional)) } := by
  simp [closed, enter, hs]

theorem settle_of_intentional (g : Nat) (c : Channel.Closing) : l.settle g c true o = l.rest := by
  simp [settle]

theorem settle_of_ne {g : Nat} (h : l.generation ≠ g) (c : Channel.Closing) (i : Bool) :
    l.settle g c i o = l.rest := by
  simp [settle, h]

theorem settle_of_reported (ha : l.attempts < l.backoff.maxAttempts) (hr : l.reported = true)
    (c : Channel.Closing) : l.settle l.generation c false o = l.tryLater o := by
  simp [settle, ha, hr]

theorem settle_of_not_reported (ha : l.attempts < l.backoff.maxAttempts)
    (hr : l.reported = false) (c : Channel.Closing) :
    l.settle l.generation c false o =
      { link := l, pause := some (.fault (.closed c.code c.reason), .retry l.generation) } := by
  simp [settle, ha, hr, report]

theorem settle_of_exhausted (ha : l.backoff.maxAttempts ≤ l.attempts) (c : Channel.Closing) :
    l.settle l.generation c false o =
      { link := { l with terminal := true }
        pause := some (.fault (.retriesExhausted l.attempts c.code), .nothing) } := by
  simp [settle, Nat.not_lt.2 ha, report]

theorem retry_of_ne {g : Nat} (h : l.generation ≠ g) : l.retry g o = l.rest := if_neg h

theorem retry_self : l.retry l.generation o = l.tryLater o := if_pos rfl

theorem opened_of_ne {g : Nat} (h : l.generation ≠ g) : l.opened g = l.rest := if_neg h

theorem opened_of_connected (hs : l.state = .connected) :
    l.opened l.generation = { link := { l with attempts := 0 } } := by
  simp [opened, enter, hs, rest]

theorem opened_of_ne_connected (hs : l.state ≠ .connected) :
    l.opened l.generation =
      { link := { l with attempts := 0, state := .connected }
        pause := some (.state l.state .connected, .nothing) } := by
  simp [opened, enter, hs]

theorem failed_of_ne {g : Nat} (h : l.generation ≠ g) (message : Bytes) :
    l.failed g message = l.rest := if_neg h

theorem failed_self (message : Bytes) :
    l.failed l.generation message =
      { link := { l with reported := true }, pause := some (.fault (.channel message), .nothing) } := by
  simp [failed, report]

/-- The link as an owner's `disconnect` leaves it. -/
def apart (l : Link) : Link :=
  { l with
    alarm := none, intentional := true, attempts := 0, generation := l.generation + 1
    channel := none, state := .disconnected }

theorem disconnect_of_disconnected (hs : l.state = .disconnected) :
    l.disconnect = { link := l.apart, commands := l.farewell } := by
  simp [disconnect, enter, hs, rest, apart, Step.after]

theorem disconnect_of_live (hs : l.state ≠ .disconnected) :
    l.disconnect =
      { link := l.apart
        commands := l.farewell
        pause := some (.state l.state .disconnected, .nothing) } := by
  simp [disconnect, enter, hs, apart, Step.after]

@[simp] theorem disconnect_link : l.disconnect.link = l.apart := by
  by_cases hs : l.state = .disconnected
  · rw [disconnect_of_disconnected hs]
  · rw [disconnect_of_live hs]

@[simp] theorem disconnect_commands : l.disconnect.commands = l.farewell := by
  by_cases hs : l.state = .disconnected
  · rw [disconnect_of_disconnected hs]
  · rw [disconnect_of_live hs]

theorem notice_of_ne {g : Nat} (h : l.generation ≠ g) (n : Channel.Notice) :
    l.notice g n o = l.rest := by
  cases n with
  | opened => exact opened_of_ne h
  | frame => rfl
  | failed message => exact failed_of_ne h message
  | closed c => exact closed_of_ne h c

theorem deny_eq : l.deny = { link := l, pause := some (.fault .noCredential, .nothing) } := rfl

theorem resume_of_ne {r : Resume} {g : Nat} (hr : r.generation? = some g)
    (h : l.generation ≠ g) : l.resume o r = l.rest := by
  cases r with
  | nothing | deny => cases hr
  | dial => cases hr; exact dial_of_ne h
  | abandon => cases hr; exact closed_of_ne h _
  | settle => cases hr; exact settle_of_ne h _ _
  | retry => cases hr; exact retry_of_ne h

end ProgressFeed.Link
