import PulseProcessor.Bridge.Frame

/-! # Frames are read back

Every list of bytes begins in exactly one way: with a request in full, with what can be no request,
or with a request that is cut short.  `Incoming.ofBytes` tells these apart.  What a request, what is
cut short and what is refused are is said here by the bytes of requests alone
(`Request.Sendable`, `EndsInside`, `Refused`).
-/

namespace PulseProcessor

/-- **The fields of a frame can hold the numbers of the request.** -/
def Request.Framed : Request → Prop
  | .transfer channel address length timeout =>
    channel < UInt32.size ∧ address < UInt32.size ∧ length < UInt32.size ∧ timeout < UInt32.size
  | .load words => words.length < UInt32.size
  | _ => True

instance : DecidablePred Request.Framed
  | .transfer channel address length timeout =>
    inferInstanceAs (Decidable (channel < UInt32.size ∧ address < UInt32.size ∧
      length < UInt32.size ∧ timeout < UInt32.size))
  | .load words => inferInstanceAs (Decidable (words.length < UInt32.size))
  | .capacity | .read _ | .write .. | .start | .stop => .isTrue trivial

/-- **A request that an agent carries out**: its numbers fit their fields, and program memory can
hold what it loads. -/
def Request.Sendable : Request → Prop
  | .load words => words.length ≤ programMemoryDepth
  | r => r.Framed

instance : DecidablePred Request.Sendable
  | .load words => inferInstanceAs (Decidable (words.length ≤ programMemoryDepth))
  | .transfer channel address length timeout =>
    inferInstanceAs (Decidable (Request.transfer channel address length timeout).Framed)
  | .capacity | .read _ | .write .. | .start | .stop => .isTrue trivial

theorem Request.Sendable.framed {r : Request} (h : r.Sendable) : r.Framed := by
  cases r with
  | load words => exact Nat.lt_of_le_of_lt h (by decide)
  | _ => exact h

namespace Bridge

/-! ### Numbers and words -/

variable {count n : Nat} {bytes rest : List UInt8} {words : List Word}

/-- **A number is read from exactly the bytes it is written as.** -/
theorem takeNumber?_eq_some_iff :
    takeNumber? count bytes = some (n, rest) ↔
      n < Nat.pow 256 count ∧ bytes = littleEndian count n ++ rest := by
  constructor
  · intro h
    induction count generalizing n bytes rest with
    | zero =>
      cases h
      exact ⟨Nat.one_pos, rfl⟩
    | succ count ih =>
      cases bytes with
      | nil => cases h
      | cons b bytes =>
        obtain ⟨⟨m, after⟩, hm, heq⟩ := Option.map_eq_some_iff.1 h
        cases heq
        obtain ⟨hlt, rfl⟩ := ih hm
        have hb := b.toNat_lt
        have hlow : UInt8.ofNat (b.toNat + 256 * m) = b := by
          apply UInt8.toNat_inj.1
          rw [UInt8.toNat_ofNat']
          omega
        have hhigh : (b.toNat + 256 * m) / 256 = m := by omega
        refine ⟨?_, ?_⟩
        · rw [Nat.pow_eq] at hlt ⊢
          rw [Nat.pow_succ]
          omega
        · rw [littleEndian, hlow, hhigh, List.cons_append]
  · rintro ⟨hlt, rfl⟩
    rw [takeNumber?_littleEndian, Nat.mod_eq_of_lt hlt]

theorem takeNumber?_of_lt (h : n < Nat.pow 256 count) (rest : List UInt8) :
    takeNumber? count (littleEndian count n ++ rest) = some (n, rest) :=
  takeNumber?_eq_some_iff.2 ⟨h, rfl⟩

/-- A number at the end of the bytes. -/
theorem takeNumber?_last (h : n < Nat.pow 256 count) :
    takeNumber? count (littleEndian count n) = some (n, []) :=
  takeNumber?_eq_some_iff.2 ⟨h, (List.append_nil _).symm⟩

theorem takeNumber?_eq_none_iff : takeNumber? count bytes = none ↔ bytes.length < count := by
  induction count generalizing bytes with
  | zero => simp [takeNumber?]
  | succ count ih =>
    cases bytes with
    | nil => simp [takeNumber?]
    | cons b bytes => simp [takeNumber?, ih]

theorem exists_takeNumber? (h : count ≤ bytes.length) :
    ∃ n rest, takeNumber? count bytes = some (n, rest) := by
  cases htaken : takeNumber? count bytes with
  | none =>
    have := takeNumber?_eq_none_iff.1 htaken
    omega
  | some taken => exact ⟨taken.1, taken.2, rfl⟩

theorem wordBytes_cons (w : Word) (words : List Word) :
    wordBytes (w :: words) = littleEndian 8 w.toNat ++ wordBytes words := rfl

/-- **Words are read from exactly the bytes they are written as.** -/
theorem takeWords?_eq_some_iff :
    takeWords? count bytes = some (words, rest) ↔
      words.length = count ∧ bytes = wordBytes words ++ rest := by
  constructor
  · intro h
    induction count generalizing words bytes rest with
    | zero =>
      cases h
      exact ⟨rfl, rfl⟩
    | succ count ih =>
      obtain ⟨⟨n, after⟩, hn, h⟩ := Option.bind_eq_some_iff.1 h
      obtain ⟨⟨ws, after'⟩, hws, h⟩ := Option.bind_eq_some_iff.1 h
      cases h
      obtain ⟨hlt, rfl⟩ := takeNumber?_eq_some_iff.1 hn
      obtain ⟨rfl, rfl⟩ := ih hws
      refine ⟨rfl, ?_⟩
      rw [wordBytes_cons, UInt64.toNat_ofNat_of_lt' hlt, List.append_assoc]
  · rintro ⟨rfl, rfl⟩
    induction words with
    | nil => rfl
    | cons w ws ih =>
      have hw : takeNumber? 8 (wordBytes (w :: ws) ++ rest) =
          some (w.toNat, wordBytes ws ++ rest) := by
        rw [wordBytes_cons, List.append_assoc]
        exact takeNumber?_of_lt w.toNat_lt _
      simp [takeWords?, hw, ih]

theorem length_lt_of_takeWords? (h : takeWords? count bytes = none) :
    bytes.length < 8 * count := by
  induction count generalizing bytes with
  | zero => cases h
  | succ count ih =>
    cases hn : takeNumber? 8 bytes with
    | none =>
      have := takeNumber?_eq_none_iff.1 hn
      omega
    | some taken =>
      obtain ⟨n, after⟩ := taken
      have hlength := length_of_takeNumber? hn
      cases hws : takeWords? count after with
      | none =>
        have := ih hws
        omega
      | some taken => simp [takeWords?, hn, hws] at h

/-! ### Requests -/

variable {r : Request}

/-- **A request is read back**, whatever comes behind it. -/
theorem ofBytes_bytes (h : r.Sendable) (rest : List UInt8) :
    Incoming.ofBytes (r.bytes ++ rest) = .request r rest := by
  have take (n : Nat) (hn : n < UInt32.size) (rest : List UInt8) :
      takeNumber? 4 (littleEndian 4 n ++ rest) = some (n, rest) := takeNumber?_of_lt hn rest
  cases r with
  | capacity => rfl
  | start => rfl
  | stop => rfl
  | read addr =>
    simp [Request.bytes, Incoming.ofBytes, takeRead?, take _ addr.toNat_lt, Incoming.ofArguments]
  | write addr value =>
    simp [Request.bytes, Incoming.ofBytes, takeWrite?, take _ addr.toNat_lt, take _ value.toNat_lt,
      Incoming.ofArguments]
  | transfer channel address length timeout =>
    obtain ⟨hchannel, haddress, hlength, htimeout⟩ := h
    simp [Request.bytes, Incoming.ofBytes, takeTransfer?, take _ hchannel, take _ haddress,
      take _ hlength, take _ htimeout, Incoming.ofArguments]
  | load words =>
    have hwords : takeWords? words.length (wordBytes words ++ rest) = some (words, rest) :=
      takeWords?_eq_some_iff.2 ⟨rfl, rfl⟩
    simp [Request.bytes, Incoming.ofBytes, Incoming.ofLoad, take _ h.framed, hwords, takeLoad?,
      Nat.not_lt.2 h, Incoming.ofArguments]

/-! ### What is no request -/

/-- **What cannot be the beginning of a request that is carried out**: a byte with which no request
begins, or a load of more words than program memory can hold. -/
inductive Refused : ProtocolFault → List UInt8 → Prop
  | unknown {command : UInt8} (unknown : ∀ r : Request, r.bytes.head? ≠ some command)
      (rest : List UInt8) : Refused (.unknownCommand command) (command :: rest)
  | oversized {count : Nat} (large : programMemoryDepth < count) (framed : count < UInt32.size)
      (rest : List UInt8) :
      Refused (.oversizedLoad count) (0x07 :: (littleEndian 4 count ++ rest))

/-- **More bytes would make it a request.** -/
def Continuable (bytes : List UInt8) : Prop :=
  ∃ (r : Request) (missing : List UInt8), r.Framed ∧ missing ≠ [] ∧ bytes ++ missing = r.bytes

/-- **The bytes end inside a request.**  A load that is too large is refused as soon as its count is
there. -/
structure EndsInside (bytes : List UInt8) : Prop where
  begun : bytes ≠ []
  continuable : Continuable bytes
  unrefused : ∀ fault, ¬ Refused fault bytes

/-- What stands at the front of some bytes, in terms of the requests that could be there. -/
inductive Begins : List UInt8 → Incoming → Prop
  | nothing : Begins [] .incomplete
  | request {r : Request} (sendable : r.Sendable) (rest : List UInt8) :
      Begins (r.bytes ++ rest) (.request r rest)
  | cut {bytes : List UInt8} (continuable : Continuable bytes) : Begins bytes .incomplete
  | refused {fault : ProtocolFault} {bytes : List UInt8} (refused : Refused fault bytes) :
      Begins bytes (.refused fault)

/-- **A reader of the part of a request behind its lead**, which takes `size` bytes. -/
structure Reads (lead : List UInt8) (size : Nat)
    (take? : List UInt8 → Option (Request × List UInt8)) : Prop where
  taken : ∀ {bytes r rest}, take? bytes = some (r, rest) →
    r.Sendable ∧ lead ++ bytes = r.bytes ++ rest
  length_eq : ∀ {bytes r rest}, take? bytes = some (r, rest) → rest.length + size = bytes.length
  short : ∀ {bytes}, take? bytes = none → bytes.length < size

/-- Where a reader finds too little, zeros would help. -/
theorem Reads.continuable {lead : List UInt8} {size : Nat}
    {take? : List UInt8 → Option (Request × List UInt8)} (h : Reads lead size take?)
    (hnone : take? bytes = none) : Continuable (lead ++ bytes) := by
  have hshort := h.short hnone
  let zeros : List UInt8 := List.replicate (size - bytes.length) 0
  have hzeros : (bytes ++ zeros).length = size := by
    rw [List.length_append, List.length_replicate]
    omega
  cases htake : take? (bytes ++ zeros) with
  | none =>
    have := h.short htake
    omega
  | some taken =>
    obtain ⟨r, rest⟩ := taken
    obtain ⟨hsendable, hbytes⟩ := h.taken htake
    have hlength := h.length_eq htake
    obtain rfl : rest = [] := List.eq_nil_of_length_eq_zero (by omega)
    refine ⟨r, zeros, hsendable.framed, ?_, ?_⟩
    · exact List.ne_nil_of_length_pos (by rw [List.length_replicate]; omega)
    · rw [List.append_assoc, hbytes, List.append_nil]

theorem reads_write : Reads [0x02] 8 takeWrite? where
  taken h := by
    obtain ⟨⟨addr, after⟩, h1, h⟩ := Option.bind_eq_some_iff.1 h
    obtain ⟨⟨value, after'⟩, h2, h⟩ := Option.bind_eq_some_iff.1 h
    cases h
    obtain ⟨haddr, rfl⟩ := takeNumber?_eq_some_iff.1 h1
    obtain ⟨hvalue, rfl⟩ := takeNumber?_eq_some_iff.1 h2
    refine ⟨trivial, ?_⟩
    rw [Request.bytes, UInt32.toNat_ofNat_of_lt' haddr, UInt32.toNat_ofNat_of_lt' hvalue]
    simp
  length_eq := length_of_takeWrite?
  short {bytes} h := by
    refine Nat.lt_of_not_le fun hlong => ?_
    obtain ⟨addr, after, haddr⟩ := exists_takeNumber? (show 4 ≤ bytes.length by omega)
    have := length_of_takeNumber? haddr
    obtain ⟨value, after', hvalue⟩ := exists_takeNumber? (show 4 ≤ after.length by omega)
    simp [takeWrite?, haddr, hvalue] at h

theorem reads_read : Reads [0x03] 4 takeRead? where
  taken h := by
    obtain ⟨⟨addr, after⟩, h1, h⟩ := Option.bind_eq_some_iff.1 h
    cases h
    obtain ⟨haddr, rfl⟩ := takeNumber?_eq_some_iff.1 h1
    refine ⟨trivial, ?_⟩
    rw [Request.bytes, UInt32.toNat_ofNat_of_lt' haddr]
    simp
  length_eq := length_of_takeRead?
  short {bytes} h := by
    refine Nat.lt_of_not_le fun hlong => ?_
    obtain ⟨addr, after, haddr⟩ := exists_takeNumber? (show 4 ≤ bytes.length by omega)
    simp [takeRead?, haddr] at h

theorem reads_transfer : Reads [0x04] 16 takeTransfer? where
  taken h := by
    obtain ⟨⟨channel, after⟩, h1, h⟩ := Option.bind_eq_some_iff.1 h
    obtain ⟨⟨address, after'⟩, h2, h⟩ := Option.bind_eq_some_iff.1 h
    obtain ⟨⟨length, after''⟩, h3, h⟩ := Option.bind_eq_some_iff.1 h
    obtain ⟨⟨timeout, after'''⟩, h4, h⟩ := Option.bind_eq_some_iff.1 h
    cases h
    obtain ⟨hchannel, rfl⟩ := takeNumber?_eq_some_iff.1 h1
    obtain ⟨haddress, rfl⟩ := takeNumber?_eq_some_iff.1 h2
    obtain ⟨hlength, rfl⟩ := takeNumber?_eq_some_iff.1 h3
    obtain ⟨htimeout, rfl⟩ := takeNumber?_eq_some_iff.1 h4
    refine ⟨⟨hchannel, haddress, hlength, htimeout⟩, ?_⟩
    simp [Request.bytes]
  length_eq := length_of_takeTransfer?
  short {bytes} h := by
    refine Nat.lt_of_not_le fun hlong => ?_
    obtain ⟨channel, after, h1⟩ := exists_takeNumber? (show 4 ≤ bytes.length by omega)
    have := length_of_takeNumber? h1
    obtain ⟨address, after', h2⟩ := exists_takeNumber? (show 4 ≤ after.length by omega)
    have := length_of_takeNumber? h2
    obtain ⟨length, after'', h3⟩ := exists_takeNumber? (show 4 ≤ after'.length by omega)
    have := length_of_takeNumber? h3
    obtain ⟨timeout, rest, h4⟩ := exists_takeNumber? (show 4 ≤ after''.length by omega)
    simp [takeTransfer?, h1, h2, h3, h4] at h

theorem reads_load (h : count ≤ programMemoryDepth) :
    Reads (0x07 :: littleEndian 4 count) (8 * count) (takeLoad? count) where
  taken htaken := by
    obtain ⟨⟨words, after⟩, hwords, htaken⟩ := Option.bind_eq_some_iff.1 htaken
    cases htaken
    obtain ⟨rfl, rfl⟩ := takeWords?_eq_some_iff.1 hwords
    refine ⟨h, ?_⟩
    simp [Request.bytes]
  length_eq := length_of_takeLoad?
  short {bytes} hnone := by
    refine length_lt_of_takeWords? ?_
    cases hwords : takeWords? count bytes with
    | none => rfl
    | some taken => simp [takeLoad?, hwords] at hnone

/-- The count of a load may be cut short, too. -/
theorem continuable_load (h : bytes.length < 4) : Continuable (0x07 :: bytes) := by
  let zeros : List UInt8 := List.replicate (4 - bytes.length) 0
  have hzeros : (bytes ++ zeros).length = 4 := by
    rw [List.length_append, List.length_replicate]
    omega
  obtain ⟨count, rest, hcount⟩ :=
    exists_takeNumber? (show 4 ≤ (bytes ++ zeros).length by omega)
  have hlength := length_of_takeNumber? hcount
  obtain rfl : rest = [] := List.eq_nil_of_length_eq_zero (by omega)
  obtain ⟨hlt, hbytes⟩ := takeNumber?_eq_some_iff.1 hcount
  rw [List.append_nil] at hbytes
  let words : List Word := List.replicate count 0
  have hwords : words.length = count := List.length_replicate
  refine ⟨.load words, zeros ++ wordBytes words, ?_, ?_, ?_⟩
  · show words.length < UInt32.size
    rw [hwords]
    exact hlt
  · have : 0 < zeros.length := by rw [List.length_replicate]; omega
    exact List.ne_nil_of_length_pos (by rw [List.length_append]; omega)
  · rw [Request.bytes, hwords, ← hbytes]
    simp

/-- The readers of arguments agree with what the bytes say. -/
theorem Reads.spec {lead : List UInt8} {size : Nat}
    {take? : List UInt8 → Option (Request × List UInt8)} (h : Reads lead size take?)
    (bytes : List UInt8) : Begins (lead ++ bytes) (Incoming.ofArguments (take? bytes)) := by
  cases htake : take? bytes with
  | none => exact .cut (h.continuable htake)
  | some taken =>
    obtain ⟨hsendable, hbytes⟩ := h.taken htake
    rw [hbytes]
    exact .request hsendable taken.2

/-- **What an agent finds at the front is what stands there.** -/
theorem begins_ofBytes (bytes : List UInt8) : Begins bytes (Incoming.ofBytes bytes) := by
  unfold Incoming.ofBytes
  split
  · exact .nothing
  · rename_i command args
    split
    · exact reads_write.spec args
    · exact reads_read.spec args
    · exact reads_transfer.spec args
    · exact .request (r := .start) trivial args
    · exact .request (r := .stop) trivial args
    · unfold Incoming.ofLoad
      split
      · rename_i hnone
        exact .cut (continuable_load (takeNumber?_eq_none_iff.1 hnone))
      · rename_i count rest hcount
        obtain ⟨hlt, rfl⟩ := takeNumber?_eq_some_iff.1 hcount
        by_cases hlarge : count > programMemoryDepth
        · rw [if_pos hlarge]
          exact .refused (.oversized hlarge hlt rest)
        · rw [if_neg hlarge]
          exact (reads_load (Nat.le_of_not_lt hlarge)).spec rest
    · exact .request (r := .capacity) trivial args
    · refine .refused (.unknown (fun r => ?_) args)
      cases r <;> simp_all [Request.bytes, eq_comm]

/-! ### The three cases apart -/

variable {fault : ProtocolFault}

/-- **A request is found exactly where its bytes are.** -/
theorem ofBytes_eq_request_iff :
    Incoming.ofBytes bytes = .request r rest ↔ r.Sendable ∧ bytes = r.bytes ++ rest := by
  constructor
  · intro h
    have hbegins := begins_ofBytes bytes
    rw [h] at hbegins
    cases hbegins with
    | request sendable rest => exact ⟨sendable, rfl⟩
  · rintro ⟨hsendable, rfl⟩
    exact ofBytes_bytes hsendable rest

theorem ofBytes_eq_refused_iff :
    Incoming.ofBytes bytes = .refused fault ↔ Refused fault bytes := by
  constructor
  · intro h
    have hbegins := begins_ofBytes bytes
    rw [h] at hbegins
    cases hbegins with
    | refused refused => exact refused
  · intro h
    cases h with
    | @unknown command unknown rest =>
      have hwrite := unknown (.write 0 0)
      have hread := unknown (.read 0)
      have htransfer := unknown (.transfer 0 0 0 0)
      have hstart := unknown .start
      have hstop := unknown .stop
      have hload := unknown (.load [])
      have hcapacity := unknown .capacity
      unfold Incoming.ofBytes
      dsimp only
      split <;> simp_all [Request.bytes]
    | @oversized count large framed rest =>
      have hcount : takeNumber? 4 (littleEndian 4 count ++ rest) = some (count, rest) :=
        takeNumber?_of_lt framed rest
      simp [Incoming.ofBytes, Incoming.ofLoad, hcount, large]

/-- No request goes on where another one ends. -/
theorem eq_nil_of_bytes_eq {r' : Request} (hr : r.Framed) (hr' : r'.Sendable)
    (h : r.bytes = r'.bytes ++ rest) : rest = [] := by
  have hfound : Incoming.ofBytes r.bytes = .request r' rest := ofBytes_eq_request_iff.2 ⟨hr', h⟩
  by_cases hsendable : r.Sendable
  · have hitself := ofBytes_bytes hsendable []
    rw [List.append_nil, hfound] at hitself
    cases hitself
    rfl
  · -- A request with proper fields that is not carried out is too large a load.
    cases r with
    | load words =>
      have hrefused := ofBytes_eq_refused_iff.2
        (.oversized (Nat.lt_of_not_le hsendable) hr (wordBytes words))
      rw [Request.bytes, hrefused] at hfound
      cases hfound
    | _ => exact absurd hr hsendable

theorem ofBytes_eq_incomplete_iff :
    Incoming.ofBytes bytes = .incomplete ↔ bytes = [] ∨ EndsInside bytes := by
  constructor
  · intro h
    by_cases hnil : bytes = []
    · exact .inl hnil
    · have hbegins := begins_ofBytes bytes
      rw [h] at hbegins
      cases hbegins with
      | nothing => exact absurd rfl hnil
      | cut continuable =>
        refine .inr ⟨hnil, continuable, fun fault hfault => ?_⟩
        rw [ofBytes_eq_refused_iff.2 hfault] at h
        cases h
  · rintro (rfl | ⟨-, ⟨r, missing, hframed, hmissing, hbytes⟩, hunrefused⟩)
    · rfl
    · cases h : Incoming.ofBytes bytes with
      | incomplete => rfl
      | refused fault => exact absurd (ofBytes_eq_refused_iff.1 h) (hunrefused fault)
      | request r' rest =>
        obtain ⟨hr', rfl⟩ := ofBytes_eq_request_iff.1 h
        rw [List.append_assoc] at hbytes
        have hnil := eq_nil_of_bytes_eq hframed hr' hbytes.symm
        exact absurd (List.append_eq_nil_iff.1 hnil).2 hmissing

end Bridge
end PulseProcessor
