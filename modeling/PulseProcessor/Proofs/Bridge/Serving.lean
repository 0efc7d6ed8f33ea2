import PulseProcessor.Board.Simulated
import PulseProcessor.Bridge.Agent
import PulseProcessor.Proofs.Bridge.Frame

/-! # What an agent does with any bytes

The bytes that a peer sends fall into requests in full, as many as there are, and a tail.  An agent
carries out these requests in their order, and the tail has no effect: it only decides how serving
ends (`serve_spec`).  A device that breaks down ends it earlier.
-/

namespace PulseProcessor.Bridge

variable {σ : Type} (device : Device σ)

/-! ### Requests in a row -/

/-- The bytes of requests, one behind the other. -/
def requestBytes (rs : List Request) : List UInt8 := rs.flatMap Request.bytes

@[simp] theorem requestBytes_nil : requestBytes [] = [] := rfl

@[simp] theorem requestBytes_cons (r : Request) (rs : List Request) :
    requestBytes (r :: rs) = r.bytes ++ requestBytes rs := rfl

/-- Carries out requests and replies to each of them, unless the device breaks down. -/
def execute (s : σ) : List Request → Served σ
  | [] => ⟨s, [], .ok ()⟩
  | r :: rs =>
    match device.handle s r with
    | (.error .crashed, s) => ⟨s, [], .error .crashed⟩
    | (answer, s) =>
      let served := execute s rs
      { served with reply := reply r answer ++ served.reply }

/-- Goes on where serving ended well. -/
def Served.andThen (x : Served σ) (next : σ → Served σ) : Served σ :=
  match x.outcome with
  | .error _ => x
  | .ok () =>
    let y := next x.state
    { y with reply := x.reply ++ y.reply }

theorem Served.andThen_assoc (x : Served σ) (f g : σ → Served σ) :
    (x.andThen f).andThen g = x.andThen fun s => (f s).andThen g := by
  obtain ⟨state, reply, outcome⟩ := x
  cases outcome with
  | error e => rfl
  | ok _ =>
    cases hf : (f state).outcome with
    | error e => simp [andThen, hf]
    | ok _ => simp [andThen, hf]

theorem Served.andThen_stop (x : Served σ) : (x.andThen fun s => ⟨s, [], .ok ()⟩) = x := by
  obtain ⟨state, reply, outcome⟩ := x
  cases outcome with
  | error e => rfl
  | ok _ => simp [andThen]

variable {device} {s : σ} {r : Request} {rs : List Request} {bytes rest tail : List UInt8}

theorem execute_cons_crashed {s' : σ} (h : device.handle s r = (.error .crashed, s')) :
    execute device s (r :: rs) = ⟨s', [], .error .crashed⟩ := by
  rw [execute, h]

theorem execute_cons_answered {answer : Except DeviceError r.Answer} {s' : σ}
    (h : device.handle s r = (answer, s')) (hanswer : answer ≠ .error .crashed) :
    execute device s (r :: rs) =
      { execute device s' rs with reply := reply r answer ++ (execute device s' rs).reply } := by
  rw [execute, h]
  split
  · rename_i heq
    cases heq
    exact absurd rfl hanswer
  · rename_i heq
    cases heq
    rfl

/-- Only a device that breaks down keeps an agent from carrying out its requests. -/
theorem eq_crashed_of_execute {e : DeviceError} (h : (execute device s rs).outcome = .error e) :
    e = .crashed := by
  induction rs generalizing s with
  | nil => cases h
  | cons r rs ih =>
    rcases hhandle : device.handle s r with ⟨answer, s'⟩
    by_cases hanswer : answer = .error .crashed
    · subst hanswer
      rw [execute_cons_crashed hhandle] at h
      cases h
      rfl
    · rw [execute_cons_answered hhandle hanswer] at h
      exact ih h

theorem execute_cons (device : Device σ) (s : σ) (r : Request) (rs : List Request) :
    execute device s (r :: rs) =
      (execute device s [r]).andThen fun s => execute device s rs := by
  rcases hhandle : device.handle s r with ⟨answer, s'⟩
  by_cases hanswer : answer = .error .crashed
  · subst hanswer
    rw [execute_cons_crashed hhandle, execute_cons_crashed hhandle]
    rfl
  · rw [execute_cons_answered hhandle hanswer, execute_cons_answered hhandle hanswer]
    simp [execute, Served.andThen]

/-! ### Serving, one step -/

@[simp] theorem serve_nil : serve device s [] = ⟨s, [], .ok ()⟩ := by
  rw [serve]
  rfl

theorem serve_of_endsInside (h : EndsInside bytes) :
    serve device s bytes = ⟨s, [], .error (.link .unexpectedEnd)⟩ := by
  have hincomplete := ofBytes_eq_incomplete_iff.2 (.inr h)
  have hbegun := h.begun
  rw [serve]
  split
  · simp_all
  · split <;> simp_all

theorem serve_of_refused {fault : ProtocolFault} (h : Refused fault bytes) :
    serve device s bytes = ⟨s, [], .error (.protocol fault)⟩ := by
  have hrefused := ofBytes_eq_refused_iff.2 h
  rw [serve]
  split
  · cases h <;> simp_all
  · split <;> simp_all

theorem serve_request (h : r.Sendable) :
    serve device s (r.bytes ++ rest) =
      (execute device s [r]).andThen fun s => serve device s rest := by
  have hrequest := ofBytes_bytes h rest
  have hbegun : (r.bytes ++ rest).isEmpty = false := by cases r <;> rfl
  rw [serve, hbegun]
  simp only [Bool.false_eq_true, if_false]
  split
  · simp_all
  · simp_all
  · rename_i r' rest' heq
    rw [hrequest] at heq
    cases heq
    rcases hhandle : device.handle s r with ⟨answer, s'⟩
    by_cases hanswer : answer = .error .crashed
    · subst hanswer
      rw [execute_cons_crashed hhandle]
      rfl
    · rw [execute_cons_answered hhandle hanswer]
      split
      · rename_i heq
        cases heq
        exact absurd rfl hanswer
      · rename_i heq
        cases heq
        simp [Served.andThen, execute]

/-- **An agent carries out requests as they come**, whatever comes behind them. -/
theorem serve_requestBytes_append (device : Device σ) (s : σ) (h : ∀ r ∈ rs, r.Sendable) :
    serve device s (requestBytes rs ++ rest) =
      (execute device s rs).andThen fun s => serve device s rest := by
  induction rs generalizing s with
  | nil => simp [execute, Served.andThen]
  | cons r rs ih =>
    have hr : r.Sendable := h r (List.mem_cons_self ..)
    have hrs : ∀ r ∈ rs, r.Sendable := fun r' hr' => h r' (List.mem_cons_of_mem _ hr')
    rw [requestBytes_cons, List.append_assoc, serve_request hr]
    rw [execute_cons device s r rs, Served.andThen_assoc]
    simp only [ih _ hrs]

theorem serve_requestBytes (device : Device σ) (s : σ) (h : ∀ r ∈ rs, r.Sendable) :
    serve device s (requestBytes rs) = execute device s rs := by
  have hserve : serve device s (requestBytes rs ++ []) =
      (execute device s rs).andThen fun s => serve device s [] :=
    serve_requestBytes_append device s h
  simp only [serve_nil, Served.andThen_stop, List.append_nil] at hserve
  exact hserve

/-! ### The tail -/

/-- **All the requests that some bytes begin with**, and the tail behind them. -/
structure Splits (bytes : List UInt8) (rs : List Request) (tail : List UInt8) : Prop where
  eq : bytes = requestBytes rs ++ tail
  sendable : ∀ r ∈ rs, r.Sendable
  /-- No other requests in full go further. -/
  longest : ∀ rs' tail', bytes = requestBytes rs' ++ tail' → (∀ r ∈ rs', r.Sendable) → rs' <+: rs

/-- Requests can be told apart without separators: the bytes say which they are. -/
theorem isPrefix_of_requestBytes_eq {rs' : List Request} {tail' : List UInt8}
    (hrs : ∀ r ∈ rs, r.Sendable) (hrs' : ∀ r ∈ rs', r.Sendable)
    (htail : ∀ r rest, Incoming.ofBytes tail ≠ .request r rest)
    (h : requestBytes rs ++ tail = requestBytes rs' ++ tail') : rs' <+: rs := by
  induction rs' generalizing rs with
  | nil => exact List.nil_prefix
  | cons r' rs' ih =>
    have hr' : r'.Sendable := hrs' r' (List.mem_cons_self ..)
    rw [requestBytes_cons, List.append_assoc] at h
    have hfound := ofBytes_bytes hr' (requestBytes rs' ++ tail')
    cases rs with
    | nil => exact absurd (h ▸ hfound) (htail _ _)
    | cons r rs =>
      have hr : r.Sendable := hrs r (List.mem_cons_self ..)
      rw [requestBytes_cons, List.append_assoc] at h
      rw [← h, ofBytes_bytes hr] at hfound
      obtain ⟨rfl, -⟩ := Incoming.request.inj hfound
      have hrest := List.append_cancel_left h
      have hprefix := ih (fun r hr => hrs r (List.mem_cons_of_mem _ hr))
        (fun r hr => hrs' r (List.mem_cons_of_mem _ hr)) hrest
      exact List.cons_prefix_cons.2 ⟨rfl, hprefix⟩

/-- **Any bytes split**, and no request stands at the front of their tail. -/
theorem exists_splits (bytes : List UInt8) :
    ∃ rs tail, Splits bytes rs tail ∧ ∀ r rest, Incoming.ofBytes tail ≠ .request r rest := by
  have hparts : ∃ rs tail, bytes = requestBytes rs ++ tail ∧ (∀ r ∈ rs, r.Sendable) ∧
      ∀ r rest, Incoming.ofBytes tail ≠ .request r rest := by
    induction hlength : bytes.length using Nat.strongRecOn generalizing bytes with
    | ind n ih =>
      cases hfound : Incoming.ofBytes bytes with
      | request r rest =>
        have hlt := Incoming.length_lt_of_ofBytes hfound
        obtain ⟨hr, rfl⟩ := ofBytes_eq_request_iff.1 hfound
        obtain ⟨rs, tail, rfl, hrs, htail⟩ := ih rest.length (hlength ▸ hlt) rest rfl
        refine ⟨r :: rs, tail, ?_, ?_, htail⟩
        · rw [requestBytes_cons, List.append_assoc]
        · exact List.forall_mem_cons.2 ⟨hr, hrs⟩
      | incomplete => exact ⟨[], bytes, rfl, by simp, by simp [hfound]⟩
      | refused fault => exact ⟨[], bytes, rfl, by simp, by simp [hfound]⟩
  obtain ⟨rs, tail, heq, hrs, htail⟩ := hparts
  refine ⟨rs, tail, ⟨heq, hrs, fun rs' tail' heq' hrs' => ?_⟩, htail⟩
  exact isPrefix_of_requestBytes_eq hrs hrs' htail (heq.symm.trans heq')

/-- **How serving ends**, as far as the bytes decide it. -/
structure EndsAs (bytes tail : List UInt8) (outcome : Except DeviceError Unit) : Prop where
  ok : outcome = .ok () ↔ ∃ rs, (∀ r ∈ rs, Request.Sendable r) ∧ bytes = requestBytes rs
  unexpectedEnd : outcome = .error (.link .unexpectedEnd) ↔ EndsInside tail
  protocol : ∀ fault, outcome = .error (.protocol fault) ↔ Refused fault tail
  /-- There is no other way. -/
  exhaustive : outcome = .ok () ∨ outcome = .error (.link .unexpectedEnd) ∨
    ∃ fault, outcome = .error (.protocol fault)

/-- A tail has no effect on the device and draws no reply. -/
theorem serve_tail (device : Device σ) (s : σ) (hsplits : Splits bytes rs tail)
    (htail : ∀ r rest, Incoming.ofBytes tail ≠ .request r rest) :
    (serve device s tail).state = s ∧ (serve device s tail).reply = [] ∧
      EndsAs bytes tail (serve device s tail).outcome := by
  have hnone (rs' : List Request) (hrs' : ∀ r ∈ rs', r.Sendable) (h : bytes = requestBytes rs') :
      tail = [] := by
    -- The longest requests are at least as long as all of the bytes.
    obtain ⟨more, rfl⟩ := hsplits.longest rs' [] (by rw [List.append_nil]; exact h) hrs'
    have heq := h.symm.trans hsplits.eq
    rw [requestBytes, requestBytes, List.flatMap_append, List.append_assoc] at heq
    have := List.self_eq_append_right.1 heq
    exact (List.append_eq_nil_iff.1 this).2
  by_cases hnil : tail = []
  · subst hnil
    have heq := hsplits.eq
    rw [List.append_nil] at heq
    have hinside : ¬ EndsInside [] := fun h => h.begun rfl
    have hrefused (fault : ProtocolFault) : ¬ Refused fault [] := fun h => nomatch h
    rw [serve_nil]
    exact ⟨rfl, rfl, by simpa using ⟨rs, hsplits.sendable, heq⟩, by simpa using hinside,
      by simpa using hrefused, .inl rfl⟩
  · have hsome : ¬ ∃ rs', (∀ r ∈ rs', Request.Sendable r) ∧ bytes = requestBytes rs' := by
      rintro ⟨rs', hrs', h⟩
      exact hnil (hnone rs' hrs' h)
    cases hfound : Incoming.ofBytes tail with
    | request r rest => exact absurd hfound (htail r rest)
    | incomplete =>
      have hinside := (ofBytes_eq_incomplete_iff.1 hfound).resolve_left hnil
      rw [serve_of_endsInside hinside]
      exact ⟨rfl, rfl, by simpa using hsome, by simpa using hinside,
        by simpa using hinside.unrefused, .inr (.inl rfl)⟩
    | refused fault =>
      have hrefused := ofBytes_eq_refused_iff.1 hfound
      have hinside : ¬ EndsInside tail := fun h => h.unrefused fault hrefused
      rw [serve_of_refused hrefused]
      refine ⟨rfl, rfl, by simpa using hsome, by simpa using hinside, fun fault' => ?_,
        .inr (.inr ⟨fault, rfl⟩)⟩
      constructor
      · intro h
        cases h
        exact hrefused
      · intro h
        rw [← ofBytes_eq_refused_iff, hfound] at h
        cases h
        rfl

/-! ### All bytes -/

/-- **An agent makes sense of any bytes.**  Whatever it receives, it leaves the device and the reply
as they are after all the requests that are there in full, carried out in order; what comes behind
them has no effect.  It ends well if nothing does, and else with the fault of what does.  A device
that breaks down in carrying out one of the requests ends it there. -/
theorem serve_spec (device : Device σ) (s : σ) (bytes : List UInt8) :
    ∃ rs tail, Splits bytes rs tail ∧
      (serve device s bytes).state = (execute device s rs).state ∧
      (serve device s bytes).reply = (execute device s rs).reply ∧
      match (execute device s rs).outcome with
      | .ok () => EndsAs bytes tail (serve device s bytes).outcome
      | .error e => e = .crashed ∧ (serve device s bytes).outcome = .error .crashed := by
  obtain ⟨rs, tail, hsplits, htail⟩ := exists_splits bytes
  refine ⟨rs, tail, hsplits, ?_⟩
  have hserve : serve device s bytes =
      (execute device s rs).andThen fun s => serve device s tail := by
    rw [hsplits.eq]
    exact serve_requestBytes_append device s hsplits.sendable
  cases houtcome : (execute device s rs).outcome with
  | ok _ =>
    obtain ⟨hstate, hreply, hends⟩ :=
      serve_tail device (execute device s rs).state hsplits htail
    rw [hserve]
    simp only [Served.andThen, houtcome]
    refine ⟨hstate, ?_, hends⟩
    rw [hreply, List.append_nil]
  | error e =>
    obtain rfl := eq_crashed_of_execute houtcome
    rw [hserve]
    simp [Served.andThen, houtcome]

/-- **Bytes of requests that are not all carried out**: a board without slots breaks down at the
second of three, and serving does not end well. -/
theorem serve_crashed :
    let b : Board := { capacity := 0, channels := 1 }
    let rs : List Request := [.start, .read 1, .stop]
    let served := serve Board.device b [5, 3, 1, 0, 0, 0, 6]
    [5, 3, 1, 0, 0, 0, 6] = requestBytes rs ∧ (∀ r ∈ rs, r.Sendable) ∧
      served.outcome = .error .crashed ∧ served.reply = [0, 0, 0, 0] ∧
      served.state.running = true := by
  intro b rs served
  have hbytes : [5, 3, 1, 0, 0, 0, 6] = requestBytes rs := by decide
  have hrs : ∀ r ∈ rs, r.Sendable := by decide
  have hserved : served = execute Board.device b rs := by
    rw [← serve_requestBytes _ _ hrs, ← hbytes]
  rw [hserved]
  exact ⟨hbytes, hrs, rfl, rfl, rfl⟩

end PulseProcessor.Bridge
