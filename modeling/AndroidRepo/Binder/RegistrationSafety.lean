import AndroidRepo.Binder.Registration
import AndroidRepo.Binder.RoundTrip

/-! Each outstanding registration is at exactly one stage, and the stages alone determine the
threads, the messages and the histories. -/
namespace AndroidRepo.Binder.Registration

open Transition

variable {L : Libbinder} {ι ω : Type}

/-- How far a client's current call of `registerCallback` has come. -/
inductive Stage (L : Libbinder) (ω : Type) where
  | idle
  | requested (callback : IMyDataCallback L)
  | accepted (w : ω) (callback : IMyDataCallback L)
  | called (w : ω) (callback : IMyDataCallback L)
  | serving (w : ω) (callback : IMyDataCallback L)
  | answered (w : ω) (callback : IMyDataCallback L)
  | returning (w : ω) (callback : IMyDataCallback L)
  | replied (callback : IMyDataCallback L)

namespace Stage

def callback : Stage L ω → Option (IMyDataCallback L)
  | idle => none
  | requested cb | accepted _ cb | called _ cb | serving _ cb | answered _ cb | returning _ cb
  | replied cb => some cb

/-- The server thread that works for the client. -/
def thread : Stage L ω → Option ω
  | accepted w _ | called w _ | serving w _ | answered w _ | returning w _ => some w
  | idle | requested _ | replied _ => none

def client : Stage L ω → Client L ω
  | idle => .idle
  | serving w cb =>
    .serving w cb.asBinder (BpMyDataCallback.onDataReceived L MyDataService.greeting)
  | _ => .waiting

/-- The state of that server thread. -/
def server (c : ι) : Stage L ω → Server L ι
  | accepted _ cb => .received c (BpMyDataService.registerCallback L (some cb))
  | called _ _ | serving _ _ | answered _ _ => .calling c NO_ERROR
  | returning _ _ => .returning c NO_ERROR
  | _ => .free

def message (c : ι) : Stage L ω → Option (Message L ι ω)
  | requested cb => some (.request c (BpMyDataService.registerCallback L (some cb)))
  | called w cb =>
    some (.call w cb.asBinder (BpMyDataCallback.onDataReceived L MyDataService.greeting))
  | answered w _ => some (.callReply w NO_ERROR)
  | replied _ => some (.reply c NO_ERROR)
  | _ => none

/-- The history of the current call so far. -/
def events : Stage L ω → List (Event L)
  | idle => []
  | requested cb | accepted _ cb | called _ cb | serving _ cb => [.began cb.asBinder]
  | answered _ cb | returning _ cb | replied cb =>
    [.began cb.asBinder, .received cb.asBinder MyDataService.greeting]

/-- The steps that the current call has still to take. -/
def left : Stage L ω → ℕ
  | idle => 0
  | requested _ => 7
  | accepted _ _ => 6
  | called _ _ => 5
  | serving _ _ => 4
  | answered _ _ => 3
  | returning _ _ => 2
  | replied _ => 1

/-- What an action does to the stage of the client it is about. -/
def Advances (st : Stage L ω) (a : Action ι ω) (c : ι) (st' : Stage L ω) : Prop :=
  match a with
  | .start d => d = c ∧ st = idle ∧ st'.left = 7
  | _ => st'.left + 1 = st.left

end Stage

/-- The history of one call that has returned. -/
def block (cb : IMyDataCallback L) : List (Event L) :=
  [.began cb.asBinder, .received cb.asBinder MyDataService.greeting, .returned NO_ERROR]

variable {owner : L.IBinder → ι} {s t : State L ι ω} {g : ι → Stage L ω} {st : Stage L ω}
  {c c' : ι} {w : ω} {m : Message L ι ω} {l₁ l₂ : List (Message L ι ω)}

/-- A server thread is free, or works for exactly one client and is where that client's stage
says. -/
def ServerTracks (server : ω → Server L ι) (g : ι → Stage L ω) : Prop :=
  ∀ w, (server w = .free ∧ ∀ c, (g c).thread ≠ some w) ∨
    ∃ c, (g c).thread = some w ∧ server w = (g c).server c ∧ ∀ c', (g c').thread = some w → c' = c

def FlightTracks (inFlight : List (Message L ι ω)) (g : ι → Stage L ω) : Prop :=
  inFlight.Nodup ∧ ∀ m, m ∈ inFlight ↔ ∃ c, (g c).message c = some m

def LogTracks (owner : L.IBinder → ι) (log : ι → List (Event L)) (g : ι → Stage L ω) : Prop :=
  ∀ c, ∃ past : List (IMyDataCallback L), (∀ cb ∈ past, owner cb.asBinder = c) ∧
    log c = past.flatMap block ++ (g c).events

structure Tracks (owner : L.IBinder → ι) (s : State L ι ω) (g : ι → Stage L ω) : Prop where
  client : ∀ c, s.client c = (g c).client
  server : ServerTracks s.server g
  inFlight : FlightTracks s.inFlight g
  log : LogTracks owner s.log g
  own : ∀ c cb, (g c).callback = some cb → owner cb.asBinder = c

theorem tracks_init : Tracks owner (init L ι ω) fun _ => .idle where
  client _ := rfl
  server w := Or.inl ⟨rfl, by simp [Stage.thread]⟩
  inFlight := ⟨List.nodup_nil, by simp [init, Stage.message]⟩
  log c := ⟨[], by simp, rfl⟩
  own c cb h := by simp [Stage.callback] at h

/-- No two clients share a server thread. -/
theorem ServerTracks.inj {server : ω → Server L ι} (hs : ServerTracks server g)
    (hc : (g c).thread = some w) (hc' : (g c').thread = some w) : c = c' := by
  rcases hs w with ⟨-, hno⟩ | ⟨d, -, -, honly⟩
  · exact absurd hc (hno c)
  · rw [honly c hc, honly c' hc']

theorem ServerTracks.eq_of_thread {server : ω → Server L ι} (hs : ServerTracks server g)
    (hc : (g c).thread = some w) : server w = (g c).server c := by
  rcases hs w with ⟨-, hno⟩ | ⟨d, -, hsw, honly⟩
  · exact absurd hc (hno c)
  · rw [hsw, honly c hc]

theorem Stage.server_ne_free (h : st.thread = some w) : st.server c ≠ .free := by
  cases st <;> simp_all [Stage.thread, Stage.server]

theorem ServerTracks.unused {server : ω → Server L ι} (hs : ServerTracks server g)
    (hfree : server w = .free) (c : ι) : (g c).thread ≠ some w := by
  rcases hs w with ⟨-, hno⟩ | ⟨d, hd, hsw, -⟩
  · exact hno c
  · exact absurd (hsw.symm.trans hfree) (Stage.server_ne_free hd)

theorem ServerTracks.busy {server : ω → Server L ι} (hs : ServerTracks server g)
    (hbusy : server w ≠ .free) : ∃ c, (g c).thread = some w ∧ server w = (g c).server c := by
  rcases hs w with ⟨hfree, -⟩ | ⟨c, hc, hsw, -⟩
  · exact absurd hfree hbusy
  · exact ⟨c, hc, hsw⟩

/-- The message of a stage names its client or the server thread of that client. -/
theorem Stage.message_inj {server : ω → Server L ι} (hs : ServerTracks server g)
    (hc : (g c).message c = some m) (hc' : (g c').message c' = some m) : c = c' := by
  cases h : g c <;> cases h' : g c' <;> simp_all [Stage.message]
  all_goals subst m; simp_all
  all_goals exact hs.inj (by rw [h]; rfl) (by simp_all [Stage.thread])

section Advance

variable [DecidableEq ι]

theorem client_advance {client : ι → Client L ω} (hc : ∀ c, client c = (g c).client)
    (c : ι) (st : Stage L ω) (d : ι) :
    Function.update client c st.client d = (Function.update g c st d).client := by
  by_cases h : d = c
  · subst d
    simp
  · simp [h, hc d]

theorem client_keep {client : ι → Client L ω} (hc : ∀ c, client c = (g c).client)
    (hst : st.client = (g c).client) (d : ι) :
    client d = (Function.update g c st d).client := by
  by_cases h : d = c
  · subst d
    simp [hc, hst]
  · simp [h, hc d]

/-- A thread that works neither for the old stage of a client nor for its new one stays where it
was. -/
theorem ServerTracks.others {server : ω → Server L ι} (hs : ServerTracks server g)
    (hold : (g c).thread ≠ some w) (hnew : st.thread ≠ some w) :
    (server w = .free ∧ ∀ d, (Function.update g c st d).thread ≠ some w) ∨
      ∃ d, (Function.update g c st d).thread = some w ∧
        server w = (Function.update g c st d).server d ∧
        ∀ e, (Function.update g c st e).thread = some w → e = d := by
  rcases hs w with ⟨hfree, hno⟩ | ⟨d, hd, hsw, honly⟩
  · left
    refine ⟨hfree, ?_⟩
    intro d
    by_cases h : d = c
    · subst d
      simpa using hnew
    · simpa [h] using hno d
  · right
    have hdc : d ≠ c := by
      intro he
      subst d
      exact hold hd
    refine ⟨d, by simpa [hdc] using hd, by simpa [hdc] using hsw, ?_⟩
    intro e he
    by_cases h : e = c
    · subst e
      exact absurd (by simpa using he) hnew
    · exact honly e (by simpa [h] using he)

/-- A stage without a server thread is left for another such stage. -/
theorem ServerTracks.idle {server : ω → Server L ι} (hs : ServerTracks server g)
    (st : Stage L ω) (hc : (g c).thread = none) (hst : st.thread = none) :
    ServerTracks server (Function.update g c st) := by
  intro v
  apply hs.others
  · simp [hc]
  · simp [hst]

theorem FlightTracks.send {server : ω → Server L ι} {l : List (Message L ι ω)}
    (hf : FlightTracks l g) (hs : ServerTracks server (Function.update g c st))
    (hc : (g c).message c = none) (hst : st.message c = some m) :
    FlightTracks (l ++ [m]) (Function.update g c st) := by
  have hm : (Function.update g c st c).message c = some m := by simpa using hst
  have hnew : m ∉ l := by
    intro hml
    obtain ⟨d, hd⟩ := (hf.2 m).mp hml
    have hdc : d ≠ c := by
      rintro rfl
      simp [hc] at hd
    exact hdc (Stage.message_inj hs (by simpa [hdc] using hd) hm)
  refine ⟨(List.perm_append_singleton m l).nodup_iff.mpr (List.nodup_cons.mpr ⟨hnew, hf.1⟩), ?_⟩
  intro m'
  rw [List.mem_append, List.mem_singleton, hf.2 m']
  constructor
  · rintro (⟨d, hd⟩ | rfl)
    · have hdc : d ≠ c := by
        rintro rfl
        simp [hc] at hd
      exact ⟨d, by simpa [hdc] using hd⟩
    · exact ⟨c, hm⟩
  · rintro ⟨d, hd⟩
    by_cases h : d = c
    · subst d
      rw [hm] at hd
      exact Or.inr (Option.some.inj hd).symm
    · exact Or.inl ⟨d, by simpa [h] using hd⟩

theorem FlightTracks.take {server : ω → Server L ι} (hf : FlightTracks (l₁ ++ m :: l₂) g)
    (hs : ServerTracks server g) (hc : (g c).message c = some m) (hst : st.message c = none) :
    FlightTracks (l₁ ++ l₂) (Function.update g c st) := by
  have hnd : (m :: (l₁ ++ l₂)).Nodup := List.perm_middle.nodup_iff.mp hf.1
  obtain ⟨hnot, hnd⟩ := List.nodup_cons.mp hnd
  have hmem : ∀ m', m' ∈ l₁ ++ m :: l₂ ↔ m' = m ∨ m' ∈ l₁ ++ l₂ := by
    intro m'
    simp only [List.mem_append, List.mem_cons]
    tauto
  refine ⟨hnd, ?_⟩
  intro m'
  constructor
  · intro hm'
    obtain ⟨d, hd⟩ := (hf.2 m').mp ((hmem m').mpr (Or.inr hm'))
    have hdc : d ≠ c := by
      rintro rfl
      rw [hc] at hd
      exact hnot (Option.some.inj hd ▸ hm')
    exact ⟨d, by simpa [hdc] using hd⟩
  · rintro ⟨d, hd⟩
    have hdc : d ≠ c := by
      rintro rfl
      simp [hst] at hd
    have hd' : (g d).message d = some m' := by simpa [hdc] using hd
    rcases (hmem m').mp ((hf.2 m').mpr ⟨d, hd'⟩) with rfl | hm'
    · exact absurd (Stage.message_inj hs hd' hc) hdc
    · exact hm'

theorem LogTracks.extend {log : ι → List (Event L)} (hl : LogTracks owner log g)
    (evs : List (Event L)) (hst : st.events = (g c).events ++ evs) :
    LogTracks owner (Function.update log c (log c ++ evs)) (Function.update g c st) := by
  intro d
  obtain ⟨past, hown, hlog⟩ := hl d
  refine ⟨past, hown, ?_⟩
  by_cases h : d = c
  · subst d
    simp [hst, hlog]
  · simpa [h] using hlog

theorem LogTracks.keep {log : ι → List (Event L)} (hl : LogTracks owner log g)
    (hst : st.events = (g c).events) : LogTracks owner log (Function.update g c st) := by
  simpa using hl.extend [] (by simpa using hst)

theorem LogTracks.finish {log : ι → List (Event L)} (hl : LogTracks owner log g)
    {cb : IMyDataCallback L} (hcb : owner cb.asBinder = c)
    {evs : List (Event L)} (hblock : (g c).events ++ evs = block cb) :
    LogTracks owner (Function.update log c (log c ++ evs)) (Function.update g c .idle) := by
  intro d
  obtain ⟨past, hown, hlog⟩ := hl d
  by_cases h : d = c
  · subst d
    refine ⟨past ++ [cb], ?_, ?_⟩
    · intro cb' hm
      rcases List.mem_append.mp hm with hm | hm
      · exact hown cb' hm
      · rw [List.mem_singleton.mp hm, hcb]
    · have hidle : (Stage.idle : Stage L ω).events = [] := rfl
      simp [hlog, hblock, hidle]
  · exact ⟨past, hown, by simpa [h] using hlog⟩

theorem own_advance (ho : ∀ c cb, (g c).callback = some cb → owner cb.asBinder = c)
    (hst : ∀ cb, st.callback = some cb → owner cb.asBinder = c) (d : ι) (cb : IMyDataCallback L)
    (h : (Function.update g c st d).callback = some cb) : owner cb.asBinder = d := by
  by_cases hd : d = c
  · subst d
    exact hst cb (by simpa using h)
  · exact ho d cb (by simpa [hd] using h)

theorem own_keep (ho : ∀ c cb, (g c).callback = some cb → owner cb.asBinder = c)
    (hst : st.callback = (g c).callback) (d : ι) (cb : IMyDataCallback L) :
    (Function.update g c st d).callback = some cb → owner cb.asBinder = d :=
  own_advance ho (fun cb he => ho c cb (hst.symm.trans he)) d cb

variable [DecidableEq ω]

/-- A free thread takes up a client. -/
theorem ServerTracks.enter {server : ω → Server L ι} (hs : ServerTracks server g)
    (st : Stage L ω) (hc : (g c).thread = none) (hfree : server w = .free)
    (hst : st.thread = some w) :
    ServerTracks (Function.update server w (st.server c)) (Function.update g c st) := by
  have hno := hs.unused hfree
  intro v
  by_cases hv : v = w
  · subst v
    right
    refine ⟨c, by simp [hst], by simp, ?_⟩
    intro d hd
    by_contra h
    exact hno d (by simpa [h] using hd)
  · rw [Function.update_of_ne hv]
    apply hs.others
    · simp [hc]
    · simp [hst, Ne.symm hv]

/-- The thread of a client moves on within the client's call, or is done with it. -/
theorem ServerTracks.move {server : ω → Server L ι} (hs : ServerTracks server g)
    (st : Stage L ω) (hc : (g c).thread = some w) (hst : st.thread = some w ∨ st.thread = none) :
    ServerTracks (Function.update server w (st.server c)) (Function.update g c st) := by
  have hother : ∀ d, d ≠ c → (g d).thread ≠ some w := fun d hd he => hd (hs.inj he hc)
  intro v
  by_cases hv : v = w
  · subst v
    rcases hst with hst | hst
    · right
      refine ⟨c, by simp [hst], by simp, ?_⟩
      intro d hd
      by_contra h
      exact hother d h (by simpa [h] using hd)
    · left
      refine ⟨?_, ?_⟩
      · cases st <;> simp_all [Stage.thread, Stage.server]
      · intro d
        by_cases h : d = c
        · subst d
          simp [hst]
        · simpa [h] using hother d h
  · rw [Function.update_of_ne hv]
    apply hs.others
    · simp [hc, Ne.symm hv]
    · rcases hst with hst | hst <;> simp [hst, Ne.symm hv]

/-- The client moves on, and its server thread does not notice. -/
theorem ServerTracks.stay {server : ω → Server L ι} (hs : ServerTracks server g)
    (st : Stage L ω) (hc : (g c).thread = some w) (hst : st.thread = some w)
    (hsame : st.server c = (g c).server c) : ServerTracks server (Function.update g c st) := by
  have hm := hs.move st hc (Or.inl hst)
  rwa [hsame, ← hs.eq_of_thread hc, Function.update_eq_self] at hm

end Advance

/-! What a thread's state or a message tells about the stage it belongs to. -/

theorem Tracks.of_idle (h : Tracks owner s g) (hc : s.client c = .idle) : g c = .idle := by
  have hg := (h.client c).symm.trans hc
  cases hs : g c <;> rw [hs] at hg <;> cases hg

theorem Tracks.of_serving (h : Tracks owner s g) {target : L.IBinder} {tx : Transaction L.Cell}
    (hc : s.client c = .serving w target tx) :
    ∃ cb, g c = .serving w cb ∧ target = cb.asBinder ∧
      tx = BpMyDataCallback.onDataReceived L MyDataService.greeting := by
  have hg := (h.client c).symm.trans hc
  cases hs : g c <;> rw [hs] at hg <;> cases hg
  exact ⟨_, rfl, rfl, rfl⟩

theorem Tracks.of_request (h : Tracks owner s g) {tx : Transaction L.Cell}
    (hm : .request c tx ∈ s.inFlight) :
    ∃ cb, g c = .requested cb ∧ tx = BpMyDataService.registerCallback L (some cb) := by
  obtain ⟨d, hd⟩ := (h.inFlight.2 _).mp hm
  cases hs : g d <;> rw [hs] at hd <;> cases hd
  exact ⟨_, hs, rfl⟩

theorem Tracks.of_call (h : Tracks owner s g) {target : L.IBinder} {tx : Transaction L.Cell}
    (hm : .call w target tx ∈ s.inFlight) :
    ∃ c cb, g c = .called w cb ∧ target = cb.asBinder ∧
      tx = BpMyDataCallback.onDataReceived L MyDataService.greeting := by
  obtain ⟨d, hd⟩ := (h.inFlight.2 _).mp hm
  cases hs : g d <;> rw [hs] at hd <;> cases hd
  exact ⟨d, _, hs, rfl, rfl⟩

theorem Tracks.of_callReply (h : Tracks owner s g) {status : Int32}
    (hm : .callReply w status ∈ s.inFlight) :
    ∃ c cb, g c = .answered w cb ∧ status = NO_ERROR := by
  obtain ⟨d, hd⟩ := (h.inFlight.2 _).mp hm
  cases hs : g d <;> rw [hs] at hd <;> cases hd
  exact ⟨d, _, hs, rfl⟩

theorem Tracks.of_reply (h : Tracks owner s g) {status : Int32}
    (hm : .reply c status ∈ s.inFlight) : ∃ cb, g c = .replied cb ∧ status = NO_ERROR := by
  obtain ⟨d, hd⟩ := (h.inFlight.2 _).mp hm
  cases hs : g d <;> rw [hs] at hd <;> cases hd
  exact ⟨_, hs, rfl⟩

theorem Tracks.of_received (h : Tracks owner s g) {tx : Transaction L.Cell}
    (hw : s.server w = .received c tx) :
    ∃ cb, g c = .accepted w cb ∧ tx = BpMyDataService.registerCallback L (some cb) := by
  obtain ⟨d, hd, hsw⟩ := h.server.busy (w := w) (by simp [hw])
  have hg := hsw.symm.trans hw
  cases hs : g d <;> rw [hs] at hg hd <;> cases hg
  cases hd
  exact ⟨_, hs, rfl⟩

theorem Tracks.of_returning (h : Tracks owner s g) {status : Int32}
    (hw : s.server w = .returning c status) : ∃ cb, g c = .returning w cb ∧ status = NO_ERROR := by
  obtain ⟨d, hd, hsw⟩ := h.server.busy (w := w) (by simp [hw])
  have hg := hsw.symm.trans hw
  cases hs : g d <;> rw [hs] at hg hd <;> cases hg
  cases hd
  exact ⟨_, hs, rfl⟩

theorem Tracks.server_eq (h : Tracks owner s g) (hc : (g c).thread = some w) :
    s.server w = (g c).server c := h.server.eq_of_thread hc

theorem dispatch_registered (hL : L.Lawful) (w : ω) (c : ι)
    (cb : IMyDataCallback L) :
    dispatch w c (BpMyDataService.registerCallback L (some cb)) =
      (.calling c NO_ERROR,
        [.call w cb.asBinder (BpMyDataCallback.onDataReceived L MyDataService.greeting)]) := by
  simp [dispatch, registerCallback_roundTrip hL, accepted, MyDataService.registerCallback]

section Steps

variable [DecidableEq ι] [DecidableEq ω] {a : Action ι ω}

/-- Every step moves one client from its stage to the next, and nobody else. -/
theorem tracks_step (hL : L.Lawful) (h : Tracks owner s g) (hs : Step owner s a t) :
    ∃ c st, (g c).Advances a c st ∧ Tracks owner t (Function.update g c st) := by
  have hf := h.inFlight
  cases hs with
  | @start c cb hc hown =>
    have hg := h.of_idle hc
    have hserver := h.server.idle (.requested cb) (by rw [hg]; rfl) rfl
    have howns : ∀ cb', (Stage.requested cb : Stage L ω).callback = some cb' →
        owner cb'.asBinder = c := by
      intro cb' he
      cases he
      exact hown
    exact ⟨c, .requested cb, ⟨rfl, hg, rfl⟩, {
      client := client_advance h.client c (.requested cb)
      server := hserver
      inFlight := hf.send hserver (by rw [hg]; rfl) rfl
      log := h.log.extend _ (by rw [hg]; rfl)
      own := own_advance h.own howns }⟩
  | @accept w c tx l₁ l₂ hw hm =>
    have hin : .request c tx ∈ s.inFlight := by simp [hm]
    obtain ⟨cb, hg, rfl⟩ := h.of_request hin
    rw [hm] at hf
    exact ⟨c, .accepted w cb, by rw [hg]; rfl, {
      client := client_keep h.client (by rw [hg]; rfl)
      server := h.server.enter (.accepted w cb) (by rw [hg]; rfl) hw rfl
      inFlight := hf.take h.server (by rw [hg]; rfl) rfl
      log := h.log.keep (by rw [hg]; rfl)
      own := own_keep h.own (by rw [hg]; rfl) }⟩
  | @dispatch w c tx hw =>
    obtain ⟨cb, hg, rfl⟩ := h.of_received hw
    have hserver := h.server.move (.called w cb) (by rw [hg]; rfl) (Or.inl rfl)
    rw [dispatch_registered hL]
    exact ⟨c, .called w cb, by rw [hg]; rfl, {
      client := client_keep h.client (by rw [hg]; rfl)
      server := hserver
      inFlight := hf.send hserver (by rw [hg]; rfl) rfl
      log := h.log.keep (by rw [hg]; rfl)
      own := own_keep h.own (by rw [hg]; rfl) }⟩
  | @deliver w target tx status l₁ l₂ hm hw hc =>
    have hin : .call w target tx ∈ s.inFlight := by simp [hm]
    obtain ⟨d, cb, hg, rfl, rfl⟩ := h.of_call hin
    -- The call is for an object of the client that waits at the other end of the chain.
    obtain rfl := h.own d cb (by rw [hg]; rfl)
    rw [hm] at hf
    exact ⟨_, .serving w cb, by rw [hg]; rfl, {
      client := client_advance h.client _ (.serving w cb)
      server := h.server.stay (.serving w cb) (by rw [hg]; rfl) rfl (by rw [hg]; rfl)
      inFlight := hf.take h.server (by rw [hg]; rfl) rfl
      log := h.log.keep (by rw [hg]; rfl)
      own := own_keep h.own (by rw [hg]; rfl) }⟩
  | @handle c w target tx hc =>
    obtain ⟨cb, hg, rfl, rfl⟩ := h.of_serving hc
    have hserver := h.server.stay (.answered w cb) (by rw [hg]; rfl) rfl (by rw [hg]; rfl)
    rw [onDataReceived_roundTrip hL]
    exact ⟨c, .answered w cb, by rw [hg]; rfl, {
      client := client_advance h.client c (.answered w cb)
      server := hserver
      inFlight := hf.send hserver (by rw [hg]; rfl) rfl
      log := h.log.extend _ (by rw [hg]; rfl)
      own := own_keep h.own (by rw [hg]; rfl) }⟩
  | @resume w c status status' l₁ l₂ hw hm =>
    have hin : .callReply w status' ∈ s.inFlight := by simp [hm]
    obtain ⟨d, cb, hg, rfl⟩ := h.of_callReply hin
    -- The reply is for the call of this thread, so both belong to one client.
    have hsw := (h.server_eq (c := d) (by rw [hg]; rfl)).symm.trans hw
    rw [hg] at hsw
    cases hsw
    rw [hm] at hf
    exact ⟨c, .returning w cb, by rw [hg]; rfl, {
      client := client_keep h.client (by rw [hg]; rfl)
      server := h.server.move (.returning w cb) (by rw [hg]; rfl) (Or.inl rfl)
      inFlight := hf.take h.server (by rw [hg]; rfl) rfl
      log := h.log.keep (by rw [hg]; rfl)
      own := own_keep h.own (by rw [hg]; rfl) }⟩
  | @respond w c status hw =>
    obtain ⟨cb, hg, rfl⟩ := h.of_returning hw
    have hserver := h.server.move (.replied cb) (by rw [hg]; rfl) (Or.inr rfl)
    exact ⟨c, .replied cb, by rw [hg]; rfl, {
      client := client_keep h.client (by rw [hg]; rfl)
      server := hserver
      inFlight := hf.send hserver (by rw [hg]; rfl) rfl
      log := h.log.keep (by rw [hg]; rfl)
      own := own_keep h.own (by rw [hg]; rfl) }⟩
  | @finish c status l₁ l₂ hc hm =>
    have hin : .reply c status ∈ s.inFlight := by simp [hm]
    obtain ⟨cb, hg, rfl⟩ := h.of_reply hin
    rw [hm] at hf
    exact ⟨c, .idle, by rw [hg]; rfl, {
      client := client_advance h.client c .idle
      server := h.server.idle .idle (by rw [hg]; rfl) rfl
      inFlight := hf.take h.server (by rw [hg]; rfl) rfl
      log := h.log.finish (h.own c cb (by rw [hg]; rfl)) (by rw [hg]; rfl)
      own := own_advance h.own fun cb' he => by cases he }⟩

theorem tracks_reachable (hL : L.Lawful) (hr : Reachable (Step owner) (init L ι ω) s) :
    ∃ g, Tracks owner s g := by
  refine hr.invariant (P := fun s => ∃ g, Tracks owner s g) ⟨_, tracks_init⟩ ?_
  rintro s a t - hs ⟨g, hg⟩
  obtain ⟨c, st, -, ht⟩ := tracks_step hL hg hs
  exact ⟨_, ht⟩

end Steps

end AndroidRepo.Binder.Registration
