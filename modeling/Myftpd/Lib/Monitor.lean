import Myftpd.Lib.Runs

/-!
# Monitors

A monitor reads a sequence letter by letter and gives up, `none`, at a letter that it does not allow.  A system that
writes a log is monitored if the log of every run is allowed; `Reach.monitored` is the simulation rule for it, with
a relation between the states of the system and those of the monitor.
-/

namespace Runs

section
variable {σ ℓ κ α : Type*}

/-- the state of the monitor after the letters -/
def monitor (next : κ → α → Option κ) (q : κ) (as : List α) : Option κ := as.foldlM next q

variable {next : κ → α → Option κ} {q q' : κ} {a : α} {as bs : List α}

theorem monitor_append : monitor next q (as ++ bs) = (monitor next q as).bind fun q => monitor next q bs :=
  List.foldlM_append

theorem monitor_cons : monitor next q (a :: as) = (next q a).bind fun q => monitor next q as := rfl

theorem monitor_one : monitor next q [a] = next q a := Option.bind_fun_some _

theorem monitor_stay (h : ∀ a ∈ as, next q a = some q) : monitor next q as = some q := by
  induction as with
  | nil => rfl
  | cons a as ih =>
    rw [monitor_cons, h a List.mem_cons_self, Option.bind_some]
    exact ih fun b hb => h b (List.mem_cons_of_mem _ hb)

/-- **The log of every run is allowed**, if the states of system and monitor are related at the start and every step
adds letters that lead to related states again. -/
theorem Reach.monitored {T : System σ ℓ} {C : σ → ℓ → Prop} {f : σ → List α} {R : σ → κ → Prop} {J : σ → Prop}
    (hJ : ∀ s, Reach T C s → J s) (h0 : ∀ s, T.init s → f s = [] ∧ R s q)
    (hs : ∀ s l s' q, J s → R s q → C s l → T.step l s s' →
      ∃ as q', f s' = f s ++ as ∧ monitor next q as = some q' ∧ R s' q')
    {s : σ} (h : Reach T C s) : ∃ q', monitor next q (f s) = some q' ∧ R s q' := by
  refine Reach.inv_with (I := fun s => ∃ q', monitor next q (f s) = some q' ∧ R s q') hJ ?_ ?_ h
  · intro s hi
    obtain ⟨h1, h2⟩ := h0 s hi
    exact ⟨q, by rw [h1]; rfl, h2⟩
  · rintro s l s' hj ⟨p, hp, hr⟩ hc ht
    obtain ⟨as, p', h1, h2, h3⟩ := hs s l s' p hj hr hc ht
    exact ⟨p', by rw [h1, monitor_append, hp, Option.bind_some, h2], h3⟩

end

end Runs
