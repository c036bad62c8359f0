/-
# EmWinDemo.Socket.Admission -- how many clients the server lets in

The server task decides by the number of one descriptor when to stop: after the round of a client
on descriptor 3 it suspends itself, and nobody resumes it.  Descriptors are shared with the weather
fetches and reused after a client has left, so the number says little about how many clients there
are.  And a server that is opened while a connection of an earlier session has the port listens
without one, and lets nobody in at all.  `always_admits_iff` says when all goes well: either happens
only beside clients on 1, 2 and 3, and nobody leaves from then on.
-/
import EmWinDemo.Socket.Sessions

namespace EmWinDemo.Socket.Admission

open EmWinDemo.Lib.Runs EmWinDemo.Lib.Descriptors EmWinDemo.Socket.Sessions

/-! ## The law and its condition -/

/-- The number of connected clients. -/
def connected (s : State) : Nat := held Owner.isClient s.sockets

/-- The server can get to accept one more client, with nobody leaving in between. -/
def CanAccept (s : State) : Prop :=
  ∃ es : List Event, (∀ e ∈ es, e = .finish ∨ e = .fetchEnd) ∧
    ∃ t, exec step s (es ++ [.accept]) = some t ∧ connected t = connected s + 1

/-- While the server is open: the clients have the descriptors 1, 2 and 3, the server is suspended
only with three clients, and with fewer it can still accept one. -/
structure Admits (s : State) : Prop where
  ids : s.opened = true → ∀ k, (s.sockets k).any Owner.isClient → k = 1 ∨ k = 2 ∨ k = 3
  suspended : s.opened = true → s.server = .suspended → connected s = 3
  room : s.opened = true → connected s < 3 → CanAccept s

/-- The server will not accept again: it has accepted descriptor 3, or it is open without a port. -/
def Stopped (s : State) : Prop :=
  s.server = .suspended ∨ s.server = .handling 3 ∨ s.opened = true ∧ s.bound = false

instance (s : State) : Decidable (Stopped s) := inferInstanceAs (Decidable (_ ∨ _ ∨ _))

/-- Descriptor `k` is a client's. -/
def IsClient (s : State) (k : Fin 4) : Prop := (s.sockets k).any Owner.isClient = true

/-- The server is opened only when its port is free, or with three clients there already;
descriptor 3 goes to a client only when 1 and 2 are clients' as well; and nobody leaves once the
server has stopped. -/
def StopsFull (s : State) : Event → Prop
  | .click => s.opened = false → PortFree s ∨ IsClient s 1 ∧ IsClient s 2 ∧ IsClient s 3
  | .accept => lowest s.sockets = some 3 → IsClient s 1 ∧ IsClient s 2
  | .disconnect _ => ¬Stopped s
  | _ => True

/-- The invariant under that condition. -/
structure FullStop (s : State) : Prop where
  inv : Inv s
  full : Stopped s → IsClient s 1 ∧ IsClient s 2 ∧ IsClient s 3

theorem fullStop_init : FullStop init where
  inv := inv_init
  full h := by rcases h with h | h | ⟨h, -⟩ <;> cases h

/-- Descriptor 0 is never a client's. -/
theorem zero_not_client {s : State} (hs : Inv s) : ¬IsClient s 0 := by
  intro h
  unfold IsClient at h
  cases hopen : s.opened with
  | true =>
    rw [(hs.openServer hopen).2.1] at h
    cases h
  | false =>
    rcases (hs.closedServer hopen).2.2 with h0 | h0
    · rw [h0] at h
      cases h
    · rw [h0] at h
      cases h

theorem connected_eq {s : State} (hs : Inv s) :
    connected s = ((s.sockets 1).any Owner.isClient).toNat +
      ((s.sockets 2).any Owner.isClient).toNat + ((s.sockets 3).any Owner.isClient).toNat := by
  have h0 := zero_not_client hs
  have hlist : List.finRange 4 = [0, 1, 2, 3] := by decide
  unfold connected held IsClient at *
  rw [hlist]
  simp only [List.countP_cons, List.countP_nil, h0]
  cases (s.sockets 1).any Owner.isClient <;> cases (s.sockets 2).any Owner.isClient <;>
    cases (s.sockets 3).any Owner.isClient <;> rfl

/-- Three clients are connected exactly when the descriptors 1, 2 and 3 are clients'. -/
theorem connected_iff {s : State} (hs : Inv s) :
    connected s = 3 ↔ IsClient s 1 ∧ IsClient s 2 ∧ IsClient s 3 := by
  rw [connected_eq hs]
  unfold IsClient
  cases (s.sockets 1).any Owner.isClient <;> cases (s.sockets 2).any Owner.isClient <;>
    cases (s.sockets 3).any Owner.isClient <;> decide

theorem connected_le {s : State} (hs : Inv s) : connected s ≤ 3 := by
  have h1 := ((s.sockets 1).any Owner.isClient).toNat_le
  have h2 := ((s.sockets 2).any Owner.isClient).toNat_le
  have h3 := ((s.sockets 3).any Owner.isClient).toNat_le
  rw [connected_eq hs]
  omega

/-! ## Clients come by `accept` and go by `disconnect` -/

/-- A descriptor changes hands, and neither owner is a client. -/
theorem isClient_update {s : State} {k : Fin 4} {w : Option Owner} (hold : ¬IsClient s k)
    (hw : w.any Owner.isClient = false) (j : Fin 4) :
    (Function.update s.sockets k w j).any Owner.isClient = true ↔ IsClient s j := by
  rcases eq_or_ne j k with rfl | hne
  · rw [Function.update_self, hw]
    exact iff_of_false Bool.false_ne_true hold
  · rw [Function.update_of_ne hne]
    rfl

theorem not_isClient_of_free {s : State} {k : Fin 4} (h : s.sockets k = none) : ¬IsClient s k := by
  unfold IsClient
  rw [h]
  exact Bool.false_ne_true

theorem isClient_step {s t : State} {e : Event} (hs : Inv s) (h : step s e = some t)
    (haccept : e ≠ .accept) (hdisconnect : ∀ r, e ≠ .disconnect r) (k : Fin 4) :
    IsClient t k ↔ IsClient s k := by
  cases step_effect h with
  | openClick hf hopen =>
    obtain ⟨hzero, heq⟩ := openServer_eq hs hopen hf
    rw [heq]
    exact isClient_update (not_isClient_of_free hzero) rfl k
  | closeClick hf hopen =>
    obtain ⟨hsock, hzero, -⟩ := hs.openServer hopen
    show (closeSocket s.sockets s.sockServer k).any _ = true ↔ _
    rcases eq_or_ne k 0 with rfl | hne
    · have h0 : ((0 : Fin 4) : Int) = s.sockServer := by
        rw [hsock]
        rfl
      rw [closeSocket, if_pos h0]
      exact iff_of_false Bool.false_ne_true (zero_not_client hs)
    · rw [closeSocket_of_ne]
      · rfl
      · rw [hsock]
        exact fun h0 => hne (Fin.ext (by simpa using h0))
  | accept => exact absurd rfl haccept
  | @disconnect r => exact absurd rfl (hdisconnect r)
  | acceptFails | finish | send | receive | copy | fetchFails | linger => rfl
  | fetchBegin hf hk => exact isClient_update (not_isClient_of_free (lowest_free hk)) rfl k
  | @fetchEnd j hf =>
    refine isClient_update ?_ rfl k
    unfold IsClient
    rw [(hs.fetch j).mpr hf]
    exact Bool.false_ne_true

/-- `accept` makes a client of the lowest free descriptor. -/
theorem isClient_accept {s t : State} (h : step s .accept = some t) {k : Fin 4}
    (hk : lowest s.sockets = some k) (j : Fin 4) : IsClient t j ↔ j = k ∨ IsClient s j := by
  cases step_effect h with
  | @accept k' hsrv hbound hk' =>
    obtain rfl := Option.some.inj (hk.symm.trans hk')
    show (Function.update s.sockets k _ j).any _ = true ↔ _
    rcases eq_or_ne j k with rfl | hne
    · rw [Function.update_self]
      exact iff_of_true rfl (Or.inl rfl)
    · rw [Function.update_of_ne hne]
      exact ⟨Or.inr, fun h => h.resolve_left hne⟩

/-- The client of a reader that leaves its loop is one no longer. -/
theorem isClient_disconnect {s t : State} {r : Reader} (hs : Inv s)
    (h : step s (.disconnect r) = some t) : ∃ k, IsClient s k ∧ ¬IsClient t k := by
  cases step_effect h with
  | disconnect hr hpos =>
    obtain ⟨k, hk, hclient⟩ := hs.reader r hr hpos
    refine ⟨k, ?_, ?_⟩
    · unfold IsClient
      rw [hclient]
      rfl
    · show ¬(closeSocket s.sockets r.sockClient k).any Owner.isClient = true
      rw [closeSocket, if_pos hk]
      exact Bool.false_ne_true

/-! ## A stopped server accepts nobody -/

theorem stopped_step {s t : State} {e : Event} (hs : Stopped s) (he : e = .finish ∨ e = .fetchEnd)
    (h : step s e = some t) : Stopped t := by
  rcases he with rfl | rfl
  · cases step_effect h with
    | @finish sockClient hsrv =>
      rcases hs with hsus | hhand | hunbound
      · rw [hsus] at hsrv
        cases hsrv
      · rw [hhand] at hsrv
        obtain rfl := ServerTask.handling.inj hsrv
        exact Or.inl rfl
      · exact Or.inr (Or.inr hunbound)
  · cases step_effect h with
    | fetchEnd hf => exact hs

theorem not_canAccept_of_stopped {s : State} (hs : Stopped s) : ¬CanAccept s := by
  rintro ⟨es, hes, t, ht, -⟩
  induction es generalizing s with
  | nil =>
    rw [List.nil_append, exec_cons] at ht
    obtain ⟨u, hu, -⟩ := Option.bind_eq_some_iff.mp ht
    cases step_effect hu with
    | accept hsrv hbound hk =>
      rcases hs with h | h | ⟨-, h⟩
      · rw [hsrv] at h
        cases h
      · rw [hsrv] at h
        cases h
      · rw [hbound] at h
        cases h
  | cons e es ih =>
    rw [List.cons_append, exec_cons] at ht
    obtain ⟨u, hu, hrest⟩ := Option.bind_eq_some_iff.mp ht
    have hstopped := stopped_step hs (hes e List.mem_cons_self) hu
    exact ih hstopped (fun f hf => hes f (List.mem_cons_of_mem _ hf)) hrest

/-! ## A server that has not stopped accepts one more -/

/-- Without a fetch a descriptor that is not a client's is free. -/
theorem free {s : State} (hs : Inv s) (hf : s.fetch = none) {k : Fin 4} (hk0 : k ≠ 0)
    (hk : ¬IsClient s k) : s.sockets k = none := by
  unfold IsClient at hk
  cases hsock : s.sockets k with
  | none => rfl
  | some w =>
    cases w with
    | server => exact absurd (hs.server k hsock) hk0
    | client n => simp [hsock, Owner.isClient] at hk
    | fetch =>
      rw [(hs.fetch k).mp hsock] at hf
      cases hf

/-- From a state without a fetch and with the server in `accept`. -/
theorem accept_connected {s : State} (hs : Inv s) (hsrv : s.server = .accepting)
    (hbound : s.bound = true) (hf : s.fetch = none) (hroom : connected s < 3) :
    ∃ t, exec step s [.accept] = some t ∧ connected t = connected s + 1 := by
  have hfree : ∃ k, s.sockets k = none := by
    by_contra hnone
    have hall : ∀ k : Fin 4, k ≠ 0 → IsClient s k := by
      intro k hk0
      by_contra hk
      exact hnone ⟨k, free hs hf hk0 hk⟩
    have hthree := (connected_iff hs).mpr ⟨hall 1 (by decide), hall 2 (by decide), hall 3 (by decide)⟩
    omega
  obtain ⟨k, hk⟩ := hfree
  obtain ⟨j, hj⟩ := lowest_isSome hk
  have hheld := held_update (p := Owner.isClient) (lowest_free hj) (w := .client s.session) rfl
  refine ⟨{ s with
    sockets := Function.update s.sockets j (some (.client s.session)), server := .handling j }, ?_,
    hheld⟩
  simp only [exec_cons, exec_nil, step, hsrv, hbound, hj, Option.bind_some]

theorem CanAccept.before {s t : State} {e : Event} (he : e = .finish ∨ e = .fetchEnd)
    (h : step s e = some t) (hsame : connected t = connected s) (ht : CanAccept t) :
    CanAccept s := by
  obtain ⟨es, hes, u, hu, hconn⟩ := ht
  refine ⟨e :: es, ?_, u, ?_, by rw [hconn, hsame]⟩
  · intro f hf
    rcases List.mem_cons.mp hf with rfl | hf
    · exact he
    · exact hes f hf
  · rw [List.cons_append, exec_cons, h, Option.bind_some, hu]

/-- Once a fetch is over, a server that has not stopped gets back to `accept`. -/
theorem canAccept_idle {s : State} (hs : Inv s) (hopen : s.opened = true) (hf : s.fetch = none)
    (hstop : ¬Stopped s) (hroom : connected s < 3) : CanAccept s := by
  have hbound : s.bound = true := by
    by_contra hfalse
    exact hstop (Or.inr (Or.inr ⟨hopen, by simpa using hfalse⟩))
  cases hsrv : s.server with
  | absent => exact absurd hsrv (hs.openServer hopen).2.2
  | accepting =>
    obtain ⟨t, ht, hconn⟩ := accept_connected hs hsrv hbound hf hroom
    exact ⟨[], fun e he => absurd he List.not_mem_nil, t, ht, hconn⟩
  | handling sockClient =>
    have hfinish : step s .finish = some (finishRound s sockClient) := by simp only [step, hsrv]
    have hne : sockClient ≠ 3 := fun h3 => hstop (Or.inr (Or.inl (h3 ▸ hsrv)))
    have hnext : (finishRound s sockClient).server = .accepting := if_neg hne
    obtain ⟨t, ht, hconn⟩ := accept_connected (inv_step hs hfinish) hnext hbound hf hroom
    refine CanAccept.before (Or.inl rfl) hfinish rfl ⟨[], ?_, t, ht, hconn⟩
    intro e he
    exact absurd he List.not_mem_nil
  | suspended => exact absurd (Or.inl hsrv) hstop

theorem canAccept_of_not_stopped {s : State} (hs : Inv s) (hopen : s.opened = true)
    (hstop : ¬Stopped s) (hroom : connected s < 3) : CanAccept s := by
  cases hf : s.fetch with
  | none => exact canAccept_idle hs hopen hf hstop hroom
  | some k =>
    have hend : step s .fetchEnd = some { s with
        sockets := Function.update s.sockets k none, fetch := none } := by simp only [step, hf]
    have hsame : held Owner.isClient (Function.update s.sockets k none) = connected s := by
      apply held_congr
      intro j
      rcases eq_or_ne j k with rfl | hne
      · rw [Function.update_self, (hs.fetch j).mpr hf]
        rfl
      · rw [Function.update_of_ne hne]
    refine CanAccept.before (Or.inr rfl) hend hsame ?_
    apply canAccept_idle (inv_step hs hend) hopen rfl hstop
    show held Owner.isClient (Function.update s.sockets k none) < 3
    rw [hsame]
    exact hroom

/-! ## The condition is exact -/

theorem FullStop.admits {s : State} (hs : FullStop s) : Admits s where
  ids _ k hk := by
    have h0 := zero_not_client hs.inv
    have hne : k ≠ 0 := fun h => h0 (h ▸ hk)
    match k, hne with
    | 1, _ => exact Or.inl rfl
    | 2, _ => exact Or.inr (Or.inl rfl)
    | 3, _ => exact Or.inr (Or.inr rfl)
  suspended _ hsus := (connected_iff hs.inv).mpr (hs.full (Or.inl hsus))
  room hopen hroom := by
    apply canAccept_of_not_stopped hs.inv hopen ?_ hroom
    intro hstop
    have hfull := (connected_iff hs.inv).mpr (hs.full hstop)
    omega

theorem fullStop_step {s t : State} {e : Event} (hs : FullStop s) (hok : StopsFull s e)
    (h : step s e = some t) : FullStop t := by
  refine ⟨inv_step hs.inv h, ?_⟩
  cases step_effect h with
  | openClick hf hopen =>
    have hkept := isClient_step hs.inv h nofun nofun
    obtain ⟨-, heq⟩ := openServer_eq hs.inv hopen hf
    rw [hkept 1, hkept 2, hkept 3, heq]
    rintro (hstop | hstop | ⟨-, hstop⟩)
    · cases hstop
    · cases hstop
    · exact (hok hopen).resolve_left (of_decide_eq_false hstop)
  | closeClick => rintro (hstop | hstop | ⟨hstop, -⟩) <;> cases hstop
  | @accept k hsrv hbound hk =>
    rintro (hstop | hstop | ⟨-, hstop⟩)
    · cases hstop
    · have hk3 : k = 3 := by
        have hval := ServerTask.handling.inj hstop
        exact Fin.ext (by exact_mod_cast hval)
      subst hk3
      obtain ⟨h1, h2⟩ := hok hk
      have hclient := isClient_accept h hk
      exact ⟨(hclient 1).mpr (Or.inr h1), (hclient 2).mpr (Or.inr h2), (hclient 3).mpr (Or.inl rfl)⟩
    · rw [show s.bound = false from hstop] at hbound
      cases hbound
  | acceptFails =>
    rintro (hstop | hstop | hunbound)
    · cases hstop
    · exact absurd (ServerTask.handling.inj hstop) (by decide)
    · exact hs.full (Or.inr (Or.inr hunbound))
  | @finish sockClient hsrv =>
    intro hstop
    apply hs.full
    by_cases h3 : sockClient = 3
    · exact Or.inr (Or.inl (by rw [hsrv, h3]))
    · -- the server goes on, so it has stopped for want of a port
      have hnext : (finishRound s sockClient).server = .accepting := if_neg h3
      rcases hstop with h | h | hunbound
      · rw [hnext] at h
        cases h
      · rw [hnext] at h
        cases h
      · exact Or.inr (Or.inr hunbound)
  | disconnect hr hpos => exact fun hstop => absurd hstop hok
  | send | receive | copy | fetchFails | linger => exact hs.full
  | fetchBegin | fetchEnd =>
    intro hstop
    have hkept := isClient_step hs.inv h nofun nofun
    rw [hkept 1, hkept 2, hkept 3]
    exact hs.full hstop

/-- An open server that has stopped with a descriptor missing violates the law. -/
theorem not_admits_of_stopped {s : State} (hs : Inv s) (hopen : s.opened = true)
    (hstop : Stopped s) (hmissing : ¬(IsClient s 1 ∧ IsClient s 2 ∧ IsClient s 3)) :
    ¬Admits s := by
  intro hadmits
  have hroom : connected s < 3 := by
    have hle := connected_le hs
    have hne : connected s ≠ 3 := fun h => hmissing ((connected_iff hs).mp h)
    omega
  exact not_canAccept_of_stopped hstop (hadmits.room hopen hroom)

theorem stopsFull_of_admits {s t : State} {e : Event} (hs : FullStop s) (h : step s e = some t)
    (ht : Admits t) : StopsFull s e := by
  have hinv := inv_step hs.inv h
  cases step_effect h with
  | openClick hf hopen =>
    intro _
    by_contra hmissing
    obtain ⟨hport, hfew⟩ := not_or.mp hmissing
    have hkept := isClient_step hs.inv h nofun nofun
    obtain ⟨-, heq⟩ := openServer_eq hs.inv hopen hf
    have hunbound : (openServer s).bound = false := by
      rw [heq]
      exact decide_eq_false hport
    have hopened : (openServer s).opened = true := by rw [heq]
    refine not_admits_of_stopped hinv hopened (Or.inr (Or.inr ⟨hopened, hunbound⟩)) ?_ ht
    rwa [hkept 1, hkept 2, hkept 3]
  | closeClick hf hopen =>
    intro hclosed
    rw [hopen] at hclosed
    cases hclosed
  | @accept k hsrv hbound hk =>
    intro hlow
    obtain rfl : k = 3 := Option.some.inj (hk.symm.trans hlow)
    have hopen := hs.inv.opened_of_server (by rw [hsrv]; simp)
    by_contra hmissing
    refine not_admits_of_stopped hinv hopen (Or.inr (Or.inl rfl)) ?_ ht
    rintro ⟨h1, h2, -⟩
    have hclient := isClient_accept h hk
    exact hmissing ⟨((hclient 1).mp h1).resolve_left (by decide),
      ((hclient 2).mp h2).resolve_left (by decide)⟩
  | @disconnect r hr hpos =>
    intro hstop
    have hopen : s.opened = true := by
      rcases hstop with h | h | ⟨h, -⟩
      · exact hs.inv.opened_of_server (by rw [h]; simp)
      · exact hs.inv.opened_of_server (by rw [h]; simp)
      · exact h
    obtain ⟨k, hbefore, hafter⟩ := isClient_disconnect hs.inv h
    refine not_admits_of_stopped hinv hopen hstop ?_ ht
    rintro ⟨h1, h2, h3⟩
    have hk0 : k ≠ 0 := fun h0 => zero_not_client hs.inv (h0 ▸ hbefore)
    match k, hk0 with
    | 1, _ => exact hafter h1
    | 2, _ => exact hafter h2
    | 3, _ => exact hafter h3
  | acceptFails | finish | send | receive | copy | fetchBegin | fetchFails | fetchEnd | linger =>
    trivial

/-! ## Runs -/

/-- **The server stops at three clients exactly when it stops full and stays full.** In every run from
the start, the law of admission holds in all states if and only if the server is opened only while
its port is free, or with three clients there already, descriptor 3 is given to a client only beside
clients on 1 and 2, and nobody leaves once one of these has stopped the server. -/
theorem always_admits_iff (es : List Event) (hrun : (exec step init es).isSome) :
    Always step Admits init es ↔ EachStep step StopsFull init es :=
  always_iff_eachStep (fun _ => FullStop.admits)
    (fun _ _ _ hs hok h => fullStop_step hs hok h)
    (fun _ _ _ hs h ht => stopsFull_of_admits hs h ht) fullStop_init hrun

/-- Three clients, with a fetch before the last one. -/
def threeClients : List Event :=
  [.click, .accept, .finish, .accept, .finish, .fetchBegin, .fetchEnd, .accept, .finish]

theorem always_admits_iff_threeClients :
    Always step Admits init threeClients ↔ EachStep step StopsFull init threeClients :=
  always_admits_iff threeClients (by rfl)

/-- The server stays suspended when one of three clients leaves. -/
theorem not_always_admits : ¬∀ es, (exec step init es).isSome → Always step Admits init es := by
  intro hall
  have hrun := hall [.click, .accept, .finish, .accept, .finish, .accept, .finish,
    .disconnect ⟨1, 1⟩] (by rfl)
  have hadmits := hrun.last rfl
  have hthree := hadmits.suspended rfl rfl
  exact absurd hthree (by decide)

end EmWinDemo.Socket.Admission
