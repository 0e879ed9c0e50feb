import Myftpd.Refine.Event
import Myftpd.Refine.Thread

/-!
# The server keeps the ledger

* `exec_step`  a step of the server is an operation on its ledger.
-/

namespace Myftpd
open CMem Server

/-- **A further step of a handler.** -/
theorem handler_step {c : Conf} {s s' : Server} {b : Bool} (h : HandlerStep s s') :
    ∃ op, Outcome c s (.onward b) s' op := by
  have hp : ∀ {m m' : Main}, s.main = m → m'.pending = m.pending → ∀ ev ∈ m'.pending, ev ∈ waiting s (.onward b) := by
    rintro m m' rfl e ev hev
    rwa [e] at hev
  have hk : ∀ {m : Main} {sid : Sid}, s.main.serves = some sid → m.serves = some sid →
      ∀ j, m.serves = some j → s.main.serves = some j := fun h h' j hj => h.trans (h'.symm.trans hj)
  cases h with
  | name hm hx hf hd =>
    exact ⟨_, Outcome.stay (Same.refl _) rfl rfl rfl (hp hm rfl) (hk (congrArg Main.serves hm) rfl)⟩
  | entry hm hx hf hb =>
    refine ⟨_, Ledger.Step.entry (ledger_sess hx) hf hb, rfl, nofun, rfl, rfl, Or.inl rfl, Or.inr (hp hm rfl),
      fun j hj => Or.inl ⟨hk (congrArg Main.serves hm) rfl j hj, rfl⟩, fun r hr => ?_⟩
    cases hr
    exact congrArg Main.stage hm
  | watch hm hx hf hb hd =>
    refine ⟨_, Ledger.Step.enroll (ledger_sess hx) hf hb hd, rfl, nofun, rfl, rfl, Or.inl rfl, Or.inr (hp hm rfl),
      fun j hj => Or.inl ⟨hk (congrArg Main.serves hm) rfl j hj, rfl⟩, fun r hr => ?_⟩
    cases hr
    exact congrArg Main.stage hm
  | deaf hm hx hf hb hd =>
    exact ⟨_, Outcome.stay (Same.refl _) rfl rfl rfl (hp hm rfl) (hk (congrArg Main.serves hm) rfl)⟩
  | write hm hx =>
    exact ⟨_, Outcome.stay (Same.emit _ _) rfl rfl rfl (hp hm rfl) (hk (congrArg Main.serves hm) rfl)⟩
  | back hm => exact ⟨_, Outcome.stay (Same.refl _) rfl rfl rfl (hp hm rfl) nofun⟩

/-- **Every step of the server is an operation on its ledger.** -/
theorem exec_step {c : Conf} {s s' : Server} {l : Label} (hen : enabled s l)
    (he : exec c s l = .ok s') : ∃ op, Outcome c s l s' op := by
  have hid : ∀ ev ∈ s.main.pending, ev ∈ s.main.pending := fun _ h => h
  cases l with
  | arrive fd bs => cases he; exact ⟨_, Outcome.stay ⟨rfl, rfl, rfl⟩ rfl rfl rfl hid fun _ h => h⟩
  | hangup fd => cases he; exact ⟨_, Outcome.stay ⟨rfl, rfl, rfl⟩ rfl rfl rfl hid fun _ h => h⟩
  | faults fd es => cases he; exact ⟨_, Outcome.stay ⟨rfl, rfl, rfl⟩ rfl rfl rfl hid fun _ h => h⟩
  | wait evs =>
    cases he
    exact ⟨.stay, Ledger.Step.stay, rfl, nofun, rfl, rfl, Or.inl rfl, Or.inl ⟨evs, rfl⟩, nofun, nofun⟩
  | timeout => cases he; exact ⟨_, Outcome.stay (Same.refl _) rfl rfl rfl nofun nofun⟩
  | waitErr e => cases he
  | evictOne now => exact evict_step hen he
  | dispatch now env =>
    obtain ⟨ev, evs, hm⟩ := hen
    unfold exec at he
    simp only [hm] at he
    exact dispatch_step hm he
  | command env =>
    obtain ⟨sid, evs, hm⟩ := hen
    exact command_step hm (exec_command_ok hm he)
  | onward sigpipe => exact handler_step (handlerStep_cases hen he)
  | acceptOne conn => exact accept_step he
  | acceptErr e =>
    obtain ⟨evs, hm⟩ := hen
    unfold exec at he
    simp only [hm] at he
    split at he
    · cases he
      refine ⟨_, Outcome.stay (Same.refl _) rfl rfl rfl ?_ nofun⟩
      unfold waiting
      rw [hm]
      exact fun ev h => h
    · cases he
  | thread tid env =>
    obtain ⟨th, hth⟩ := Option.ne_none_iff_exists'.mp hen
    exact thread_step hth he

end Myftpd
