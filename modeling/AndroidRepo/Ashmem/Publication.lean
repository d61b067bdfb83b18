import AndroidRepo.Ashmem.Model
import Mathlib.Algebra.Order.BigOperators.Group.Finset

/-! The service is registered before the text is written, and yet no client sees a part of it: a
client that finds the service gets the heap from a thread that is started afterwards. -/
namespace AndroidRepo.Ashmem

open Transition StoreLog

variable {κ : Type} {P : Program} {s t : State κ} {a : Action κ}
  {as : List (Action κ)} {c : κ}

/-- How many bytes of the text are in the heap. -/
def ServerPC.written (P : Program) : ServerPC → ℕ
  | .addService => 0
  | .sprintf i => i
  | .startThreadPool | .serving => P.bytes.length

/-- What a client knows of the heap where it is. -/
def ClientPC.Ok (P : Program) (server : ServerPC) : ClientPC → Prop
  | .checkService | .crashed => True
  | .getMemory => P.base ≠ none
  | .getBase offset => offset = P.offset
  | .printf offset out => offset = P.offset ∧ server = .serving ∧ out <+: P.format
  | .done out => out = P.format ++ [10]

structure Inv (P : Program) (s : State κ) : Prop where
  fault : s.fault = false
  length : s.heap.cells.length = P.heapSize
  registered : s.registered = true ↔ s.server ≠ .addService
  written_le : s.server.written P ≤ P.bytes.length
  log : s.heap.written = (List.range (s.server.written P)).map (P.offset + ·)
  cells : ∀ j, j < s.server.written P → s.heap.cells[P.offset + j]? = P.bytes[j]?
  client : ∀ c, (s.client c).Ok P s.server

theorem inv_init : Inv P (init P : State κ) where
  fault := rfl
  length := by simp [init]
  registered := by simp [init]
  written_le := Nat.zero_le _
  log := rfl
  cells j hj := absurd hj (Nat.not_lt_zero j)
  client _ := trivial

/-- What the clients know stays true while the server moves on. -/
theorem ClientPC.Ok.mono {pc : ClientPC} {server server' : ServerPC} (h : pc.Ok P server)
    (hserving : server ≠ .serving) : pc.Ok P server' := by
  cases pc with
  | printf offset out => exact absurd h.2.1 hserving
  | _ => exact h

theorem bytes_getElem {j : ℕ} (hj : j < P.format.length) : P.bytes[j]? = P.format[j]? := by
  rw [Program.bytes, List.getElem?_append_left hj]

theorem bytes_end : P.bytes[P.format.length]? = some 0 := by
  simp [Program.bytes]

theorem Program.Fits.lt (hP : P.Fits) {i : ℕ} (hi : i < P.bytes.length) :
    P.offset + i < P.heapSize := by
  obtain ⟨-, hsize, hheap⟩ := hP
  omega

/-- One byte more of the text. -/
theorem inv_store {i : ℕ} {b : UInt8} {heap : Buffer UInt8} (hP : P.Fits) (h : Inv P s)
    (hserver : s.server = .sprintf i) (hb : P.bytes[i]? = some b)
    (hstore : s.heap.store (P.offset + i : ℕ) b = some heap) :
    Inv P { s with server := .sprintf (i + 1), heap := heap } := by
  have hi : i < P.bytes.length := (List.getElem?_eq_some_iff.mp hb).1
  have hlt : P.offset + i < s.heap.cells.length := by
    rw [h.length]
    exact hP.lt hi
  have hlog := h.log
  have hcells := h.cells
  rw [hserver] at hlog hcells
  rw [store_of_lt hlt] at hstore
  obtain rfl := Option.some.inj hstore
  refine ⟨h.fault, by simpa using h.length, ?_, hi, ?_, ?_, ?_⟩
  · have hregistered := h.registered
    rw [hserver] at hregistered
    simpa using hregistered
  · simp only [ServerPC.written] at hlog ⊢
    rw [hlog, List.range_succ, List.map_append]
    rfl
  · intro j hj
    by_cases hij : j = i
    · subst j
      simp [hb, hlt]
    · have hlt' : j < i := by
        simp only [ServerPC.written] at hj
        omega
      rw [List.getElem?_set_ne (by omega)]
      exact hcells j hlt'
  · intro c
    exact (h.client c).mono (by simp [hserver])

/-- Any other move of the server. -/
theorem Inv.of_server {server : ServerPC} {registered : Bool} (h : Inv P s)
    (hserving : s.server ≠ .serving) (hregistered : registered = true ↔ server ≠ .addService)
    (hwritten : server.written P = s.server.written P) :
    Inv P { s with server := server, registered := registered } where
  fault := h.fault
  length := h.length
  registered := hregistered
  written_le := hwritten ▸ h.written_le
  log := hwritten ▸ h.log
  cells := hwritten ▸ h.cells
  client c := (h.client c).mono hserving

theorem found_ok (server : ServerPC) : P.found.Ok P server := by
  unfold Program.found
  cases hbase : P.base with
  | some base => simp [ClientPC.Ok, hbase]
  | none => simp [ClientPC.Ok, Program.offset, hbase]

/-- What a client that prints finds behind the bytes that it has read. -/
theorem Inv.cell (h : Inv P s) {offset : ℕ} {out : List UInt8}
    (hc : s.client c = .printf offset out) :
    out <+: P.format ∧ s.server = .serving ∧ offset = P.offset ∧
      s.heap.cells[offset + out.length]? = P.bytes[out.length]? ∧
      out.length < P.bytes.length := by
  have hok := h.client c
  rw [hc] at hok
  obtain ⟨rfl, hserver, hout⟩ := hok
  have hle := hout.length_le
  have hlt : out.length < P.bytes.length := by
    rw [Program.bytes, List.length_append, List.length_singleton]
    omega
  refine ⟨hout, hserver, rfl, ?_, hlt⟩
  apply h.cells
  rwa [hserver]

/-- The byte that follows is the next one of the text. -/
theorem prefix_next {out : List UInt8} {b : UInt8} (hout : out <+: P.format)
    (hb : P.bytes[out.length]? = some b) (hne : b ≠ 0) : out ++ [b] <+: P.format := by
  obtain ⟨rest, hrest⟩ := hout
  cases rest with
  | nil =>
    rw [List.append_nil] at hrest
    rw [hrest, bytes_end] at hb
    exact absurd (Option.some.inj hb).symm hne
  | cons b' rest =>
    have hlt : out.length < P.format.length := by simp [← hrest]
    rw [bytes_getElem hlt, ← hrest] at hb
    simp at hb
    exact ⟨rest, by simp [← hrest, hb]⟩

/-- The zero that ends the text is the first zero. -/
theorem prefix_end (hP : P.Fits) {out : List UInt8} (hout : out <+: P.format)
    (hb : P.bytes[out.length]? = some 0) : out = P.format := by
  obtain ⟨rest, hrest⟩ := hout
  cases rest with
  | nil => simpa using hrest
  | cons b' rest =>
    have hlt : out.length < P.format.length := by simp [← hrest]
    rw [bytes_getElem hlt] at hb
    exact absurd (List.mem_of_getElem? hb) hP.1

variable [DecidableEq κ]

theorem Inv.of_client {pc : ClientPC} (h : Inv P s) (hpc : pc.Ok P s.server) :
    Inv P (s.setClient c pc) := by
  refine ⟨h.fault, h.length, h.registered, h.written_le, h.log, h.cells, ?_⟩
  intro d
  rw [State.setClient_client]
  by_cases hd : d = c
  · subst d
    rwa [Function.update_self]
  · rw [Function.update_of_ne hd]
    exact h.client d

theorem inv_step (hP : P.Fits) (h : Inv P s) (hs : Step P s a t) : Inv P t := by
  cases hs with
  | addService hserver =>
    exact h.of_server (by simp [hserver]) (by simp) (by simp [hserver, ServerPC.written])
  | store hserver hb hstore => exact inv_store hP h hserver hb hstore
  | @storeFault i b hserver hb hstore =>
    have hlt : P.offset + i < s.heap.cells.length := by
      rw [h.length]
      exact hP.lt (List.getElem?_eq_some_iff.mp hb).1
    rw [store_of_lt hlt] at hstore
    cases hstore
  | @stored i hserver hb =>
    have hle := h.written_le
    rw [hserver] at hle
    have hge : P.bytes.length ≤ i := List.getElem?_eq_none_iff.mp hb
    have hwritten : ServerPC.startThreadPool.written P = s.server.written P := by
      rw [hserver]
      exact Nat.le_antisymm hge hle
    have hregistered : s.registered = true := h.registered.mpr (by simp [hserver])
    exact h.of_server (by simp [hserver]) (by simp [hregistered]) hwritten
  | startThreadPool hserver =>
    have hregistered : s.registered = true := h.registered.mpr (by simp [hserver])
    exact h.of_server (by simp [hserver]) (by simp [hregistered]) (by rw [hserver]; rfl)
  | checkService => exact h.of_client (found_ok _)
  | checkServiceNull => exact h.of_client trivial
  | getMemory _ _ hbase => exact h.of_client (by simp [ClientPC.Ok, Program.offset, hbase])
  | @getBase c offset hc hserver =>
    have hok := h.client c
    rw [hc] at hok
    exact h.of_client ⟨hok, hserver, List.nil_prefix⟩
  | read hc hb hne =>
    obtain ⟨hout, hserver, hoffset, hcell, -⟩ := h.cell hc
    exact h.of_client ⟨hoffset, hserver, prefix_next hout (hcell.symm.trans hb) hne⟩
  | readEnd hc hb =>
    obtain ⟨hout, -, -, hcell, -⟩ := h.cell hc
    exact h.of_client (congrArg (· ++ [10]) (prefix_end hP hout (hcell.symm.trans hb)))
  | readFault hc hnone =>
    obtain ⟨-, -, -, hcell, hlt⟩ := h.cell hc
    rw [hcell, List.getElem?_eq_none_iff] at hnone
    omega

theorem inv_run (hP : P.Fits) (hr : Run (Step P) (init P) as s) : Inv P s :=
  hr.reachable.invariant inv_init fun _ _ _ _ hs h => inv_step hP h hs

/-! Which clients crash. -/

/-- The client has taken a step before the server has taken its first. -/
def LookedUpEarly (as : List (Action κ)) (c : κ) : Prop :=
  ∃ pre post, as = pre ++ .client c :: post ∧ .server ∉ pre

omit [DecidableEq κ] in
theorem lookedUpEarly_append :
    LookedUpEarly (as ++ [a]) c ↔ LookedUpEarly as c ∨ a = .client c ∧ .server ∉ as := by
  constructor
  · rintro ⟨pre, post, hsplit, hpre⟩
    rcases List.eq_nil_or_concat post with rfl | ⟨post, b, rfl⟩
    · obtain ⟨rfl, ha⟩ := List.append_inj' hsplit rfl
      exact Or.inr ⟨List.singleton_inj.mp ha, hpre⟩
    · rw [List.concat_eq_append, ← List.cons_append, ← List.append_assoc] at hsplit
      exact Or.inl ⟨pre, post, (List.append_inj' hsplit rfl).1, hpre⟩
  · rintro (⟨pre, post, rfl, hpre⟩ | ⟨rfl, has⟩)
    · exact ⟨pre, post ++ [a], by simp, hpre⟩
    · exact ⟨as, [], rfl, has⟩

structure Lookups (as : List (Action κ)) (s : State κ) : Prop where
  registered : s.registered = true ↔ .server ∈ as
  pending : ∀ c, .client c ∉ as → s.client c = .checkService
  crashed : ∀ c, s.client c = .crashed ↔ LookedUpEarly as c

omit [DecidableEq κ] in
theorem lookups_init : Lookups [] (init P : State κ) where
  registered := by simp [init]
  pending _ _ := rfl
  crashed c := by simp [init, LookedUpEarly]

theorem found_ne : P.found ≠ .crashed := by
  unfold Program.found
  split <;> simp

theorem server_step (h : Inv P t) (hs : Step P s .server t) :
    t.registered = true ∧ t.client = s.client := by
  refine ⟨h.registered.mpr ?_, ?_⟩
  · cases hs with
    | storeFault hserver _ _ => simp [hserver]
    | _ => simp
  · cases hs <;> rfl

theorem client_step (hs : Step P s (.client c) t) : t.registered = s.registered ∧
    (∀ d, d ≠ c → t.client d = s.client d) ∧ s.client c ≠ .crashed ∧
    (t.client c = .crashed ↔ s.client c = .checkService ∧ s.registered = false) := by
  cases hs with
  | checkService hc hregistered =>
    exact ⟨rfl, fun d hd => by simp [hd], by simp [hc], by simp [hc, hregistered, found_ne]⟩
  | checkServiceNull hc hregistered =>
    exact ⟨rfl, fun d hd => by simp [hd], by simp [hc], by simp [hc, hregistered]⟩
  | getMemory hc _ _ | getBase hc _ | read hc _ _ | readEnd hc _ =>
    exact ⟨rfl, fun d hd => by simp [hd], by simp [hc], by simp [hc]⟩
  | readFault hc _ => exact ⟨rfl, fun _ _ => rfl, by simp [hc], by simp [hc]⟩

theorem lookups_step (h : Lookups as s) (ht : Inv P t) (hs : Step P s a t) :
    Lookups (as ++ [a]) t := by
  cases a with
  | server =>
    obtain ⟨hregistered, hclient⟩ := server_step ht hs
    refine ⟨by simp [hregistered], ?_, ?_⟩
    · intro c hc
      rw [hclient]
      apply h.pending
      intro hmem
      exact hc (List.mem_append_left _ hmem)
    · intro c
      rw [hclient, h.crashed, lookedUpEarly_append]
      simp
  | client c =>
    obtain ⟨hregistered, hother, hlive, hcrash⟩ := client_step hs
    refine ⟨by simp [hregistered, h.registered], ?_, ?_⟩
    · intro d hd
      have hdc : d ≠ c := by
        rintro rfl
        simp at hd
      rw [hother d hdc]
      apply h.pending
      intro hmem
      exact hd (List.mem_append_left _ hmem)
    · intro d
      rw [lookedUpEarly_append]
      by_cases hdc : d = c
      · subst d
        have hnot : ¬ LookedUpEarly as c := fun hearly => hlive ((h.crashed c).mpr hearly)
        rw [hcrash]
        simp only [hnot, false_or, true_and]
        rw [← h.registered, Bool.not_eq_true]
        constructor
        · exact fun hc => hc.2
        · intro hfalse
          refine ⟨h.pending c ?_, hfalse⟩
          -- A step of this client before would have been an early one.
          intro hmem
          obtain ⟨pre, post, hsplit⟩ := List.append_of_mem hmem
          refine hnot ⟨pre, post, hsplit, ?_⟩
          intro hpre
          rw [h.registered.mpr (hsplit ▸ List.mem_append_left _ hpre)] at hfalse
          cases hfalse
      · rw [hother d hdc, h.crashed d]
        simp [Ne.symm hdc]

theorem lookups_run (hP : P.Fits) (hr : Run (Step P) (init P) as s) : Lookups as s := by
  refine hr.snoc_induction (P := fun as s => Lookups as s) lookups_init ?_
  intro as s a t hr hs h
  exact lookups_step h (inv_step hP (inv_run hP hr) hs) hs

/-! Every run ends. -/

def ServerPC.work (P : Program) : ServerPC → ℕ
  | .addService => P.bytes.length + 3
  | .sprintf i => P.bytes.length - i + 2
  | .startThreadPool => 1
  | .serving => 0

def ClientPC.work (P : Program) : ClientPC → ℕ
  | .checkService => P.bytes.length + 3
  | .getMemory => P.bytes.length + 2
  | .getBase _ => P.bytes.length + 1
  | .printf _ out => P.bytes.length - out.length
  | .done _ | .crashed => 0

section Progress

variable [Fintype κ]

def State.work (P : Program) (s : State κ) : ℕ := s.server.work P + ∑ c, (s.client c).work P

theorem work_setClient (s : State κ) (c : κ) (pc : ClientPC) :
    (s.setClient c pc).work P + (s.client c).work P = s.work P + pc.work P := by
  have hsum := sum_of_ne (f := fun d => ((s.setClient c pc).client d).work P)
    (g := fun d => (s.client d).work P) (c := c)
    fun d hd => by rw [State.setClient_client, Function.update_of_ne hd]
  simp only [State.setClient_client, Function.update_self] at hsum
  simp only [State.work, State.setClient_server, State.setClient_client]
  omega

theorem found_work : P.found.work P < ClientPC.checkService.work P := by
  unfold Program.found
  split <;> simp only [ClientPC.work] <;> omega

theorem work_step (hP : P.Fits) (h : Inv P s) (hs : Step P s a t) : t.work P < s.work P := by
  have ht := inv_step hP h hs
  cases hs with
  | addService hserver | startThreadPool hserver | stored hserver _ =>
    simp only [State.work, hserver, ServerPC.work]
    omega
  | store hserver hb _ =>
    have hlt := (List.getElem?_eq_some_iff.mp hb).1
    simp only [State.work, hserver, ServerPC.work]
    omega
  | storeFault | readFault => cases ht.fault
  | @checkService c hc _ =>
    have hwork := work_setClient (P := P) s c P.found
    have hfound := found_work (P := P)
    rw [hc] at hwork
    omega
  | @checkServiceNull c hc _ =>
    have hwork := work_setClient (P := P) s c .crashed
    rw [hc] at hwork
    simp only [ClientPC.work] at hwork
    omega
  | @getMemory c offset size hc _ _ =>
    have hwork := work_setClient (P := P) s c (.getBase offset)
    rw [hc] at hwork
    simp only [ClientPC.work] at hwork
    omega
  | @getBase c offset hc _ =>
    have hwork := work_setClient (P := P) s c (.printf offset [])
    rw [hc] at hwork
    simp only [ClientPC.work, List.length_nil] at hwork
    omega
  | @read c offset out b hc _ _ =>
    obtain ⟨-, -, -, -, hlt⟩ := h.cell hc
    have hwork := work_setClient (P := P) s c (.printf offset (out ++ [b]))
    rw [hc] at hwork
    simp only [ClientPC.work, List.length_append, List.length_singleton] at hwork
    omega
  | @readEnd c offset out hc _ =>
    obtain ⟨-, -, -, -, hlt⟩ := h.cell hc
    have hwork := work_setClient (P := P) s c (.done (out ++ [10]))
    rw [hc] at hwork
    simp only [ClientPC.work] at hwork
    omega

omit [DecidableEq κ] in
theorem work_init : (init P : State κ).work P = (P.bytes.length + 3) * (Fintype.card κ + 1) := by
  have hsum : ∑ _ : κ, (P.bytes.length + 3) = Fintype.card κ * (P.bytes.length + 3) :=
    Finset.sum_const_nat fun _ _ => rfl
  simp only [State.work, init, ServerPC.work, ClientPC.work]
  rw [hsum, Nat.mul_succ (P.bytes.length + 3), Nat.mul_comm (Fintype.card κ), Nat.add_comm]

end Progress

/-- The server can always go on until its threads serve. -/
theorem rest_serving (hrest : AtRest (Step P) s) : s.server = .serving := by
  cases hserver : s.server with
  | serving => rfl
  | addService => exact absurd (.addService hserver) (hrest _ _)
  | startThreadPool => exact absurd (.startThreadPool hserver) (hrest _ _)
  | sprintf i =>
    cases hb : P.bytes[i]? with
    | none => exact absurd (.stored hserver hb) (hrest _ _)
    | some b =>
      cases hstore : s.heap.store (P.offset + i : ℕ) b with
      | none => exact absurd (.storeFault hserver hb hstore) (hrest _ _)
      | some heap => exact absurd (.store hserver hb hstore) (hrest _ _)

theorem rest_client (h : Inv P s) (hrest : AtRest (Step P) s) (c : κ) :
    s.client c = .crashed ∨ s.client c = .done (P.format ++ [10]) := by
  have hserver := rest_serving hrest
  have hok := h.client c
  cases hc : s.client c with
  | crashed => exact Or.inl rfl
  | done out =>
    rw [hc] at hok
    exact Or.inr (congrArg ClientPC.done hok)
  | checkService =>
    cases hregistered : s.registered with
    | false => exact absurd (.checkServiceNull hc hregistered) (hrest _ _)
    | true => exact absurd (.checkService hc hregistered) (hrest _ _)
  | getMemory =>
    rw [hc] at hok
    obtain ⟨⟨offset, size⟩, hbase⟩ := Option.ne_none_iff_exists'.mp hok
    exact absurd (.getMemory hc hserver hbase) (hrest _ _)
  | getBase offset => exact absurd (.getBase hc hserver) (hrest _ _)
  | printf offset out =>
    cases hb : s.heap.cells[offset + out.length]? with
    | none => exact absurd (.readFault hc hb) (hrest _ _)
    | some b =>
      by_cases hzero : b = 0
      · exact absurd (.readEnd hc (hzero ▸ hb)) (hrest _ _)
      · exact absurd (.read hc hb hzero) (hrest _ _)

/-- The byte of the heap that a client is about to read. -/
def ClientPC.reads : ClientPC → Option ℕ
  | .printf offset out => some (offset + out.length)
  | _ => none

omit [DecidableEq κ] in
theorem Inv.reads_within (hP : P.Fits) (h : Inv P s) {i : ℕ}
    (hi : (s.client c).reads = some i) : P.offset ≤ i ∧ i < P.offset + P.size := by
  cases hc : s.client c with
  | printf offset out =>
    obtain ⟨-, -, rfl, -, hlt⟩ := h.cell hc
    rw [hc] at hi
    have hsize := hP.2.1
    have hi' : P.offset + out.length = i := Option.some.inj hi
    omega
  | _ =>
    rw [hc] at hi
    cases hi

/-- In every run, with any number of clients and every order of the single bytes written and read:
each byte written, and each byte read, is in the memory that was handed out; a client that prints
has printed the whole text; and the clients that crash are those that look the service up before
the server registers it. Every run is finite, and at its end each client has crashed or has printed
the text. -/
theorem message_published [Fintype κ] (hP : P.Fits) (hr : Run (Step P) (init P) as s) :
    s.fault = false ∧
    (∀ i ∈ s.heap.written, P.offset ≤ i ∧ i < P.offset + P.size) ∧
    (∀ c i, (s.client c).reads = some i → P.offset ≤ i ∧ i < P.offset + P.size) ∧
    (∀ c out, s.client c = .done out → out = P.format ++ [10]) ∧
    (∀ c, s.client c = .crashed ↔ LookedUpEarly as c) ∧
    as.length ≤ (P.bytes.length + 3) * (Fintype.card κ + 1) ∧
    (∃ bs t, Run (Step P) s bs t ∧ AtRest (Step P) t) ∧
    (AtRest (Step P) s → ∀ c,
      s.client c = .crashed ∨ s.client c = .done (P.format ++ [10])) := by
  have h := inv_run hP hr
  have hdec : ∀ (s : State κ) (a : Action κ) (t : State κ), Inv P s → Step P s a t →
      Inv P t ∧ t.work P < s.work P := fun _ _ _ h hs => ⟨inv_step hP h hs, work_step hP h hs⟩
  refine ⟨h.fault, ?_, fun c i => h.reads_within hP, ?_, (lookups_run hP hr).crashed, ?_,
    exists_rest hdec h, rest_client h⟩
  · intro i hi
    rw [h.log] at hi
    obtain ⟨j, hj, rfl⟩ := List.mem_map.mp hi
    have hlt := List.mem_range.mp hj
    have hle := h.written_le
    have hsize := hP.2.1
    omega
  · intro c out hc
    have hok := h.client c
    rwa [hc] at hok
  · have hle := (hr.length_le hdec inv_init).2
    rw [work_init] at hle
    omega

/-- Two clients of ashmem2: one looks the service up too early, the other before the text is
written. -/
theorem message_published_two : ∃ (bs : List (Action Bool)) (t : State Bool),
    Run (Step ashmem2) (init ashmem2) ([.client true, .server, .client false] ++ bs) t ∧
      AtRest (Step ashmem2) t ∧ t.client true = .crashed ∧
      t.client false = .done (hello ++ [10]) := by
  have hrun : ∃ s : State Bool, Run (Step ashmem2) (init ashmem2)
      [.client true, .server, .client false] s :=
    ⟨_, .cons (.checkServiceNull rfl rfl) <| .cons (.addService rfl) <|
      .single (.checkService rfl rfl)⟩
  obtain ⟨s, hrun⟩ := hrun
  obtain ⟨-, -, -, -, -, -, ⟨bs, t, hbs, hrest⟩, -⟩ := message_published Program.ashmem2_fits hrun
  have hall := hrun.append hbs
  obtain ⟨-, -, -, -, hcrashed, -, -, hend⟩ := message_published Program.ashmem2_fits hall
  refine ⟨bs, t, hall, hrest, (hcrashed true).mpr ⟨[], _, rfl, by simp⟩,
    (hend hrest false).resolve_left ?_⟩
  intro hc
  obtain ⟨pre, post, hsplit, hpre⟩ := (hcrashed false).mp hc
  rcases pre with _ | ⟨x, _ | ⟨y, pre⟩⟩
  · simp at hsplit
  · simp at hsplit
  · simp only [List.cons_append, List.cons.injEq] at hsplit
    exact hpre (by simp [hsplit.2.1])

end AndroidRepo.Ashmem
