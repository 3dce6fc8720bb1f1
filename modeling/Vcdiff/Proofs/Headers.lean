import Vcdiff.Proofs.TableLoading

/-!
What windows take from the file header. They take the code table that it installs and nothing else:
behind two headers of whatever length and content, which install the same table, the same bytes
decode to the same, and with faults that differ only in where they lie.
-/

namespace Vcdiff

namespace Trace

lemma verdict_shift (k : Nat) (t : Trace) :
    (t.shift k).verdict = t.verdict.mapError (·.shift k) := by
  obtain ⟨windows, session, rest, _ | (missing | fault)⟩ := t <;> rfl

end Trace

namespace Session

variable {s t u : Session} {i : Input} {front : Bytes} {header : FileHeader}

/-- The session as if it had read another header with the same code table. -/
def headed (header : FileHeader) (s : Session) : Session := { s with header := some header }

lemma decodeWindow_headed (hheader : s.header.isSome) :
    (s.headed header).decodeWindow i
      = ((s.decodeWindow i).1, (s.decodeWindow i).2.headed header) := by
  have hopen : (s.headed header).openWindow i = s.openWindow i := rfl
  rcases hs : s.openWindow i with halt | ⟨w, source⟩
  · rw [decodeWindow_of_error hheader hs,
      decodeWindow_of_error (s := s.headed header) rfl (hopen.trans hs)]
  · have hrun : Replay.run ((s.headed header).taskOf w source) ((s.headed header).progressOf w)
        = Replay.run (s.taskOf w source) (s.progressOf w) := rfl
    rw [decodeWindow_of_ok hheader hs,
      decodeWindow_of_ok (s := s.headed header) rfl (hopen.trans hs), hrun]
    rcases Replay.run (s.taskOf w source) (s.progressOf w) with ⟨fault | target, progress⟩ <;> rfl

theorem trace_headed (hheader : s.header.isSome) :
    (s.headed header).trace i = { s.trace i with session := (s.trace i).session.headed header } :=
  trace_map (f := headed header) (P := fun s _ => s.header.isSome)
    (fun _ _ _ h => decodeWindow_headed h)
    (fun s i d t h hd => by
      obtain ⟨-, -, cache, rfl, -⟩ := exists_of_decodeWindow_ok hd
      exact h)
    hheader

def outcome (s : Session) (windows : Bytes) : Except Fault (Array UInt8) :=
  (s.trace (.ofBytes 0 windows)).verdict.map fun () =>
    (s.trace (.ofBytes 0 windows)).session.output

lemma outcome_headed (hheader : s.header.isSome) (windows : Bytes) :
    (s.headed header).outcome windows = s.outcome windows := by
  rw [outcome, trace_headed hheader]
  rfl

/-- Behind a header, windows decode as by themselves, with faults that lie further on. -/
theorem decode_append (h : s.readHeader (.ofBytes 0 front) = (.ok header, t))
    (hsize : header.size = front.length) (windows : Bytes) :
    (s.decode (front ++ windows)).1 = (t.outcome windows).mapError (·.shift header.size) := by
  obtain ⟨hread, -⟩ := readHeader_append h windows
  have hinput : (Input.ofBytes 0 (front ++ windows)).drop header.size
      = (Input.ofBytes 0 windows).shift header.size := by
    simp only [Input.drop, Input.ofBytes, Input.shift, hsize, List.drop_left]
  have htrace : s.traceDelta (front ++ windows)
      = (t.trace (.ofBytes 0 windows)).shift header.size := by
    rw [traceDelta_of_ok hread, hinput, trace_shift]
  rw [decode_of_ok hread, htrace, Trace.verdict_shift, outcome]
  rcases (t.trace (.ofBytes 0 windows)).verdict with fault | ⟨⟩ <;> rfl

end Session

section Decode

variable {dictionary : Array UInt8} {limits : Limits} {front₁ front₂ : Bytes}
  {header₁ header₂ : FileHeader} {t₁ t₂ : Session}

/-- **Headers.** Two headers that install the same code table, whatever else is in them, make no
difference to the windows after them: these decode to the same output, or fail with a fault of the
same kind. -/
theorem decode_append_eq
    (h₁ : (Session.start dictionary limits).readHeader (.ofBytes 0 front₁) = (.ok header₁, t₁))
    (h₂ : (Session.start dictionary limits).readHeader (.ofBytes 0 front₂) = (.ok header₂, t₂))
    (hsize₁ : header₁.size = front₁.length) (hsize₂ : header₂.size = front₂.length)
    (htable : t₁.table = t₂.table) (windows : Bytes) :
    (decode dictionary limits (front₁ ++ windows)).mapError Fault.kind
      = (decode dictionary limits (front₂ ++ windows)).mapError Fault.kind := by
  have hkind (k : Nat) (result : Except Fault (Array UInt8)) :
      (result.mapError (·.shift k)).mapError Fault.kind = result.mapError Fault.kind := by
    rcases result with fault | output
    · exact congrArg Except.error (Fault.kind_shift k fault)
    · rfl
  have hheaded : t₂ = t₁.headed header₂ := by
    obtain ⟨-, -, table₁, -, rfl⟩ := Session.exists_of_readHeader_ok h₁
    obtain ⟨-, -, table₂, -, rfl⟩ := Session.exists_of_readHeader_ok h₂
    have htable : table₁ = table₂ := htable
    rw [htable]
    rfl
  have hheader₁ : t₁.header.isSome := by
    obtain ⟨-, -, table₁, -, rfl⟩ := Session.exists_of_readHeader_ok h₁
    rfl
  calc (decode dictionary limits (front₁ ++ windows)).mapError Fault.kind
      = (t₁.outcome windows).mapError Fault.kind := by
        rw [decode, Session.decode_append h₁ hsize₁, hkind]
    _ = (t₂.outcome windows).mapError Fault.kind := by
        rw [hheaded, Session.outcome_headed hheader₁]
    _ = (decode dictionary limits (front₂ ++ windows)).mapError Fault.kind := by
        rw [decode, Session.decode_append h₂ hsize₂, hkind]

end Decode

def defaultTable : TableSection := { copiedTable 0 with nearSize := 4, sameSize := 3 }

lemma loadTable_defaultTable {header : FileHeader} (htable : header.table = some defaultTable) :
    loadTable ample header = .ok .default := by
  have hdecode := (decode_copiedTable (Nat.zero_le 100000)).1
  have hbytes : CodeTable.ofBytes CodeTable.default.toBytes 4 3 = .ok .default :=
    CodeTable.ofBytes_toBytes (by decide) CodeTable.default_usesModes
  have hspells : defaultTable.Spells ample .default :=
    ⟨_, hdecode, CodeTable.length_toBytes .default, hbytes⟩
  have hmoderate : defaultTable.Moderate ample :=
    (moderate_copiedTable (Nat.zero_le 100000)).2 (by decide)
  exact (TableSection.loadTable_eq_ok_iff htable (plain_copiedTable 0)).2 ⟨hmoderate, hspells⟩

def defaultTableHeader : Bytes :=
  [0xd6, 0xc3, 0xc4, 0, 6, 22, 4, 3] ++ defaultTable.delta ++ [2, 7, 7]

/-- In one delta all is right, in the other the checksum of a window is wrong. -/
theorem decode_append_eq_defaultTable :
    (decode #[1, 2, 3, 4, 5] (.default ample)
          (defaultTableHeader ++ twoWindows.drop 8)).mapError Fault.kind
        = .ok #[97, 98, 99, 2, 3, 4, 5] ∧
      (decode #[1, 2, 3, 4, 5] (.default ample)
          (defaultTableHeader ++ (twoWindows.set 31 16).drop 8)).mapError Fault.kind
        = .error .checksumMismatch := by
  have hparse₁ : FileHeader.parse (.ofBytes 0 plainHeader) = .ok ⟨none, none, 5⟩ := by
    decide +kernel
  have hparse₂ : FileHeader.parse (.ofBytes 0 defaultTableHeader)
      = .ok ⟨some defaultTable, some [7, 7], 31⟩ := by
    decide +kernel
  have hplain := Session.readHeader_start #[1, 2, 3, 4, 5] (.default ample) hparse₁ rfl
  have htable := Session.readHeader_start #[1, 2, 3, 4, 5] (.default ample) hparse₂
    (loadTable_defaultTable rfl)
  have hlength : defaultTableHeader.length = 31 := by decide +kernel
  refine ⟨?_, ?_⟩
  · rw [← decode_append_eq hplain htable rfl hlength.symm rfl]
    decide +kernel
  · rw [← decode_append_eq hplain htable rfl hlength.symm rfl]
    decide +kernel

end Vcdiff
