import Vcdiff.Proofs.Calls
import Vcdiff.Proofs.CodeTable
import Vcdiff.Proofs.Limits

/-!
The code table of a file. It is declared as a delta over the default table, which a session of its
own decodes under its own limits. That comes to decoding it as any other delta is decoded, but for
one thing: a window of the delta that takes too many bytes is refused, whatever it decodes to.
-/

namespace Vcdiff

namespace TableSection

variable (declared : TableSection) (canAllocate : Nat → Bool)

/-- The delta decodes to the serialised form of the table. -/
def Spells (table : CodeTable) : Prop :=
  ∃ bytes : Array UInt8,
    decode CodeTable.default.toBytes.toArray (.default canAllocate) declared.delta = .ok bytes ∧
      bytes.size = CodeTable.byteSize ∧
      CodeTable.ofBytes bytes.toList declared.nearSize declared.sameSize = .ok table

/-- No window of the delta takes more bytes than twice those of a table and the overhead. -/
def Moderate : Prop :=
  ∀ n ∈ encodedSizes (headerSize declared.delta)
      (windowsOf CodeTable.default.toBytes.toArray (.default canAllocate) declared.delta),
    (n : Int) ≤ 2 * CodeTable.byteSize + Limits.encodingOverhead

def Plain : Prop :=
  ∀ nested, FileHeader.parse (.ofBytes 0 declared.delta) = .ok nested → nested.table = none

end TableSection

/-! ### The nested session -/

section Nested

variable {canAllocate : Nat → Bool} {delta : Bytes} {bytes : Array UInt8}

/-- Of a delta that declares no table it does not matter how tables are loaded. -/
lemma decodeWith_plainTable (s : Session)
    (hplain : ∀ nested, FileHeader.parse (.ofBytes 0 delta) = .ok nested → nested.table = none) :
    s.decodeWith plainTable delta = s.decode delta := by
  refine Session.decodeWith_congr fun nested hparse => ?_
  simp only [plainTable, loadTable, hplain nested hparse]
  rfl

lemma decodeTable_eq_ok_iff
    (hplain : ∀ nested, FileHeader.parse (.ofBytes 0 delta) = .ok nested → nested.table = none) :
    decodeTable canAllocate delta = .ok bytes ↔
      decode CodeTable.default.toBytes.toArray (tableLimits canAllocate) delta = .ok bytes ∧
        bytes.size = CodeTable.byteSize := by
  rw [decodeTable, decodeWith_plainTable _ hplain, decode]
  rcases ((Session.start CodeTable.default.toBytes.toArray (tableLimits canAllocate)).decode
    delta).1 with fault | found
  · simp
  · by_cases hsize : found.size = CodeTable.byteSize
    · simp [hsize]
      rintro rfl
      exact hsize
    · simp [hsize]
      rintro rfl
      exact hsize

lemma decodeTable_of_limitExceeded {fault : Fault}
    (hplain : ∀ nested, FileHeader.parse (.ofBytes 0 delta) = .ok nested → nested.table = none)
    (h : decode CodeTable.default.toBytes.toArray (tableLimits canAllocate) delta = .error fault)
    (hkind : fault.kind = .limitExceeded) :
    decodeTable canAllocate delta = .error .decodedTableTooLarge := by
  rw [decode] at h
  rw [decodeTable, decodeWith_plainTable _ hplain, h]
  simp [hkind]

end Nested

namespace TableSection

variable {canAllocate : Nat → Bool} {declared : TableSection} {table : CodeTable}
  {bytes : Array UInt8}

/-- The limits on a table allow each table that is within the limit for encoded windows. -/
lemma allowAll_tableLimits_iff
    (h : decode CodeTable.default.toBytes.toArray (.default canAllocate) declared.delta = .ok bytes)
    (hsize : bytes.size = CodeTable.byteSize) :
    (tableLimits canAllocate).AllowAll (headerSize declared.delta) 0
        (windowsOf CodeTable.default.toBytes.toArray (.default canAllocate) declared.delta) ↔
      declared.Moderate canAllocate := by
  constructor
  · exact fun hallow => hallow.encodedSizes_le
  · intro hmoderate
    have htotal : 0 + (joined ((windowsOf CodeTable.default.toBytes.toArray (.default canAllocate)
        declared.delta).map Placed.output)).size ≤ CodeTable.byteSize := by
      simp [joined_windowsOf h, hsize]
    exact Limits.allowAll_of_total hmoderate htotal (Int.le_refl _) (Int.le_refl _)
      (allowAll_of_decode h).allocates

/-- The default limits are no narrower. -/
lemma allowAll_default {start written : Nat} {windows : List Placed}
    (h : (tableLimits canAllocate).AllowAll start written windows) :
    (Limits.default canAllocate).AllowAll start written windows := by
  refine h.mono ?_ ?_ ?_ rfl
  all_goals
    simp only [tableLimits, Limits.default, Limits.ofOptions, Option.getD_some, Option.getD_none]
    decide

/-- **Table deltas.** The nested session makes of a table delta what any session makes of it, if
its windows are moderate. -/
theorem loadTable_eq_ok_iff {header : FileHeader} (htable : header.table = some declared)
    (hplain : declared.Plain) :
    loadTable canAllocate header = .ok table ↔
      declared.Moderate canAllocate ∧ declared.Spells canAllocate table := by
  have hload : loadTable canAllocate header = .ok table ↔
      ∃ bytes, decodeTable canAllocate declared.delta = .ok bytes ∧
        CodeTable.ofBytes bytes.toList declared.nearSize declared.sameSize = .ok table := by
    rw [loadTable, htable]
    dsimp only
    rcases decodeTable canAllocate declared.delta with fault | bytes
    · simp [bind, Except.bind]
    · simp [bind, Except.bind]
  simp only [hload, decodeTable_eq_ok_iff hplain]
  constructor
  · rintro ⟨bytes, ⟨hdecode, hsize⟩, htable⟩
    have hallow := allowAll_default (allowAll_of_decode hdecode)
    obtain ⟨hdefault, hwindows⟩ := decode_of_allowAll hdecode hallow rfl
    refine ⟨?_, bytes, hdefault, hsize, htable⟩
    rw [← allowAll_tableLimits_iff hdefault hsize, hwindows]
    exact allowAll_of_decode hdecode
  · rintro ⟨hmoderate, bytes, hdefault, hsize, htable⟩
    have hallow := (allowAll_tableLimits_iff hdefault hsize).2 hmoderate
    exact ⟨bytes, ⟨(decode_of_allowAll hdefault hallow rfl).1, hsize⟩, htable⟩

/-- A table delta with a window that is not moderate is said to decode to too much. -/
theorem loadTable_of_not_moderate {header : FileHeader} (htable : header.table = some declared)
    (hplain : declared.Plain) (hspells : declared.Spells canAllocate table)
    (h : ¬ declared.Moderate canAllocate) :
    loadTable canAllocate header = .error .decodedTableTooLarge := by
  obtain ⟨bytes, hdecode, hsize, -⟩ := hspells
  rw [← allowAll_tableLimits_iff hdecode hsize] at h
  obtain ⟨fault, hfault, hkind⟩ := decode_of_not_allowAll hdecode h rfl
  rw [loadTable, htable]
  simp only [decodeTable_of_limitExceeded hplain hfault hkind]
  rfl

end TableSection

/-! ### Windows after the header -/

/-- Replays the window over its segment, with a code table and a cleared cache of these sizes. -/
def Window.replay (w : Window) (table : CodeTable) (nearSize sameSize : Nat)
    (source : Array UInt8) : Except Fault (Array UInt8) :=
  (Replay.run ⟨table, source, w.targetLength, w.checksum⟩
    (.start (.ofSection "data section" w.dataOffset w.data)
      (.ofSection "instructions section" w.instructionsOffset w.instructions)
      (.ofSection "addresses section" w.addressesOffset w.addresses)
      (.empty nearSize sameSize))).1

namespace Session

variable {s t : Session} {i : Input} {table : CodeTable} {nearSize sameSize : Nat}

/-- The session has read a header, and the table is in use with a cache of these sizes. -/
structure Uses (table : CodeTable) (nearSize sameSize : Nat) (s : Session) : Prop where
  header : s.header.isSome
  table : s.table = table
  nearSize : s.cache.nearSize = nearSize
  sameSize : s.cache.sameSize = sameSize

/-- No call puts another table into use. -/
lemma lasting_uses (table : CodeTable) (nearSize sameSize : Nat) :
    Lasting (Uses table nearSize sameSize) where
  alike := by
    rintro s t ⟨cache, rfl, hnear, hsame⟩ h
    exact ⟨h.header, h.table, hnear.trans h.nearSize, hsame.trans h.sameSize⟩
  grow _ h := ⟨h.header, h.table, h.nearSize, h.sameSize⟩
  install hnone _ h := absurd h.header hnone

lemma Uses.decodeWindow (h : s.Uses table nearSize sameSize) (i : Input) :
    (s.decodeWindow i).1 = match s.openWindow i with
      | .error halt => .error halt
      | .ok (w, source) => match w.replay table nearSize sameSize source with
        | .error fault => .error (.invalid fault)
        | .ok target => .ok ⟨target, w.size⟩ := by
  obtain ⟨hheader, rfl, rfl, rfl⟩ := h
  rcases hopen : s.openWindow i with halt | ⟨w, source⟩
  · rw [decodeWindow_of_error hheader hopen]
  · have hreplay : w.replay s.table s.cache.nearSize s.cache.sameSize source
        = (Replay.run (s.taskOf w source) (s.progressOf w)).1 := rfl
    rw [decodeWindow_of_ok hheader hopen]
    dsimp only
    rw [hreplay]
    rcases Replay.run (s.taskOf w source) (s.progressOf w) with ⟨fault | target, progress⟩ <;> rfl

/-- **Code tables.** A header that declares a table is read just if the declaration spells a table
and is moderate; a table that is spelled in too many bytes is refused. Once the header has been
read, whatever calls follow, every window is replayed with the table that was spelled and a cache
of the sizes that were declared. -/
theorem readHeader_of_table {header : FileHeader} {declared : TableSection}
    (hnone : ¬ s.header.isSome) (hparse : FileHeader.parse i = .ok header)
    (htable : header.table = some declared) (hplain : declared.Plain) :
    ((∃ found, (s.readHeader i).1 = .ok found) ↔
        declared.Moderate s.limits.canAllocate ∧
          ∃ table, declared.Spells s.limits.canAllocate table) ∧
      (∀ table, declared.Spells s.limits.canAllocate table →
        ¬ declared.Moderate s.limits.canAllocate →
        s.readHeader i = (.error (.invalid .decodedTableTooLarge), s)) ∧
      ∀ table, declared.Spells s.limits.canAllocate table →
        declared.Moderate s.limits.canAllocate → ∀ (calls : List Call) (j : Input),
        let t := (s.readHeader i).2.after calls
        (t.decodeWindow j).1 = match t.openWindow j with
          | .error halt => .error halt
          | .ok (w, source) =>
            match w.replay table declared.nearSize declared.sameSize source with
            | .error fault => .error (.invalid fault)
            | .ok target => .ok ⟨target, w.size⟩ := by
  have hread := readHeader_of_ok hnone hparse
  refine ⟨?_, fun table hspells hmoderate => ?_, fun table hspells hmoderate calls j => ?_⟩
  · constructor
    · rintro ⟨found, hfound⟩
      rcases hload : loadTable s.limits.canAllocate header with fault | table
      · rw [hread, hload] at hfound
        cases hfound
      · obtain ⟨hmoderate, hspells⟩ := (TableSection.loadTable_eq_ok_iff htable hplain).1 hload
        exact ⟨hmoderate, table, hspells⟩
    · rintro ⟨hmoderate, table, hspells⟩
      rw [hread, (TableSection.loadTable_eq_ok_iff htable hplain).2 ⟨hmoderate, hspells⟩]
      exact ⟨header, rfl⟩
  · rw [hread, TableSection.loadTable_of_not_moderate htable hplain hspells hmoderate]
  · have hsizes : table.nearSize = declared.nearSize ∧ table.sameSize = declared.sameSize := by
      obtain ⟨bytes, -, -, hbytes⟩ := hspells
      exact CodeTable.sizes_of_ofBytes hbytes
    have huses : (s.readHeader i).2.Uses table declared.nearSize declared.sameSize := by
      rw [hread, (TableSection.loadTable_eq_ok_iff htable hplain).2 ⟨hmoderate, hspells⟩]
      exact ⟨rfl, rfl, hsizes.1, hsizes.2⟩
    exact ((lasting_uses _ _ _).after huses calls).decodeWindow j

end Session

/-! ### The default table as a delta -/

def plainHeader : Bytes := [0xd6, 0xc3, 0xc4, 0, 0]

lemma form_plainHeader : FileHeader.Form none none plainHeader := .mk .none .none

/-- A delta with one window decodes to the target of that window. -/
lemma decode_of_plan {dictionary : Array UInt8} {limits : Limits} {plan : Plan} {bytes : Bytes}
    (h : plan.Encodes dictionary.toList [] limits bytes) :
    decode dictionary limits (plainHeader ++ bytes)
        = .ok (plan.target dictionary.toList []).toArray ∧
      windowsOf dictionary limits (plainHeader ++ bytes)
        = [⟨plainHeader.length + bytes.length, (plan.target dictionary.toList []).toArray⟩] := by
  have hparse : FileHeader.parse (.ofBytes 0 (plainHeader ++ bytes))
      = .ok ⟨none, none, plainHeader.length⟩ := FileHeader.parse_of_form form_plainHeader rfl rfl
  have hread := Session.readHeader_start dictionary limits hparse rfl
  have hready : Session.Ready dictionary.toList limits []
      ((Session.start dictionary limits).install ⟨none, none, plainHeader.length⟩ .default) :=
    ⟨rfl, rfl, rfl, rfl, rfl, rfl, rfl⟩
  have hdrop : ((Input.ofBytes 0 (plainHeader ++ bytes)).drop plainHeader.length).rest
      = bytes ++ [] := by
    rw [Input.drop, Input.ofBytes, List.drop_left, List.append_nil]
  obtain ⟨t, hwindow, ht⟩ := Session.decodeWindow_of_encodes hready h hdrop
  have hend : (((Input.ofBytes 0 (plainHeader ++ bytes)).drop plainHeader.length).drop
      bytes.length).rest = [] := by
    rw [Input.drop, hdrop, List.append_nil, List.drop_length]
  have hposition : ((Input.ofBytes 0 (plainHeader ++ bytes)).drop plainHeader.length).position
      = plainHeader.length := Nat.zero_add _
  have htrace := Session.traceDelta_of_ok hread
  rw [Session.trace_of_window hwindow, Session.trace_of_empty hend, hposition] at htrace
  constructor
  · refine Session.decode_eq_ok_iff.2 ⟨by rw [htrace]; rfl, ?_⟩
    rw [htrace, ← Array.toList_inj]
    exact ht.output
  · rw [windowsOf, htrace]
    rfl

/-- Copies all of the default table. -/
def copyTable : Plan := ⟨some ⟨.dictionary, 0, 1536⟩, [.copy 0 1536]⟩

/-- The window for that, with groups of zero before the offset of its segment. -/
def copyTableWindow (zeros : Nat) : Bytes :=
  [1] ++ (([0x8c, 0] ++ (List.replicate zeros 0x80 ++ [0])) ++ ([10] ++
    (([0x8c, 0] ++ ([0] ++ ([0] ++ ([3] ++ ([1] ++ []))))) ++ ([] ++ [19, 0x8c, 0] ++ [0]))))

lemma length_copyTableWindow (zeros : Nat) : (copyTableWindow zeros).length = zeros + 15 := by
  simp [copyTableWindow]

lemma length_defaultBytes : CodeTable.default.toBytes.length = 1536 :=
  CodeTable.length_toBytes .default

lemma source_copyTable :
    copyTable.source CodeTable.default.toBytes [] = CodeTable.default.toBytes :=
  List.take_of_length_le (Nat.le_of_eq length_defaultBytes)

lemma target_copyTable :
    copyTable.target CodeTable.default.toBytes [] = CodeTable.default.toBytes := by
  have hle : 0 + 1536 ≤ CodeTable.default.toBytes.length := Nat.le_of_eq length_defaultBytes.symm
  have hcopy : copyTable.target CodeTable.default.toBytes []
      = Target.copyBytes (copyTable.source CodeTable.default.toBytes []) [] 0 1536 := by
    rw [Plan.target, copyTable, targetOf, List.foldl_cons, List.foldl_nil, Op.apply]
  rw [hcopy, source_copyTable, Target.copyBytes_of_source [] hle, List.nil_append, List.drop_zero,
    List.take_of_length_le (Nat.le_of_eq length_defaultBytes)]

lemma encodes_copyTable {zeros : Nat} (h : zeros ≤ 100000) :
    copyTable.Encodes CodeTable.default.toBytes [] (.default ample) (copyTableWindow zeros) := by
  have hsize : Varint.Written 1536 [0x8c, 0] := ⟨by decide, 0, by decide +kernel⟩
  have hzero : Varint.write 0 = [0] := by decide +kernel
  have hoffset : Varint.Written 0 (List.replicate zeros 0x80 ++ [0]) :=
    ⟨by decide, zeros, by rw [hzero]⟩
  have hentry : CodeTable.default.entry 19 = (.copy 0 0, .noop) := by decide +kernel
  have hcopy : HalfForm .default (copyTable.source CodeTable.default.toBytes []) [] []
      (CodeTable.default.entry 19).1 (.copy 0 1536) ⟨[], [0x8c, 0], [0]⟩ := by
    rw [hentry, source_copyTable]
    exact .copy rfl (.stated rfl hsize) (by rw [length_defaultBytes]; decide)
      (.self Varint.written_of_lt)
  have hscript : Script .default (copyTable.source CodeTable.default.toBytes []) [] []
      copyTable.ops ⟨[], [19, 0x8c, 0], [0]⟩ :=
    .one 19 hcopy (congrArg (·.2.kind) hentry) (.nil _ _)
  have hlengths : Window.LengthsForm ⟨1536, 0, 3, 1, none⟩ _ :=
    .mk hsize Varint.written_of_lt Varint.written_of_lt Varint.written_of_lt .none
  refine ⟨?_, ⟨_, none, hscript, by simp, ?_⟩, ?_⟩
  · rintro s ⟨⟩
    exact Nat.le_of_eq length_defaultBytes.symm
  · rw [target_copyTable, length_defaultBytes]
    exact @Window.Form.mk _ _ _ [] [19, 0x8c, 0] [0] _ [10] _ (.some hsize hoffset) hlengths
      Varint.written_of_lt
  · have hencoded : (Limits.default ample).encodedWindow = 134283264 := by decide
    rw [target_copyTable, length_defaultBytes, length_copyTableWindow]
    exact ⟨by omega, by decide, by decide, fun _ => rfl⟩

def nearTable : CodeTable := { CodeTable.default with nearSize := 6, sameSize := 1 }

def copiedTable (zeros : Nat) : TableSection := ⟨6, 1, plainHeader ++ copyTableWindow zeros⟩

section CopiedTable

variable {zeros : Nat}

lemma parse_copiedTable (zeros : Nat) :
    FileHeader.parse (.ofBytes 0 (copiedTable zeros).delta)
      = .ok ⟨none, none, plainHeader.length⟩ :=
  FileHeader.parse_of_form form_plainHeader rfl rfl

lemma plain_copiedTable (zeros : Nat) : (copiedTable zeros).Plain := by
  intro nested h
  rw [parse_copiedTable] at h
  cases h
  rfl

lemma decode_copiedTable (h : zeros ≤ 100000) :
    decode CodeTable.default.toBytes.toArray (.default ample) (copiedTable zeros).delta
        = .ok CodeTable.default.toBytes.toArray ∧
      windowsOf CodeTable.default.toBytes.toArray (.default ample) (copiedTable zeros).delta
        = [⟨plainHeader.length + (zeros + 15), CodeTable.default.toBytes.toArray⟩] := by
  have hplan := encodes_copyTable h
  have hdecode := @decode_of_plan CodeTable.default.toBytes.toArray _ _ _ hplan
  rwa [target_copyTable, length_copyTableWindow] at hdecode

lemma spells_copiedTable (h : zeros ≤ 100000) :
    (copiedTable zeros).Spells ample nearTable :=
  ⟨_, (decode_copiedTable h).1, CodeTable.length_toBytes .default,
    CodeTable.ofBytes_toBytes (show 2 + 6 + 1 ≤ 256 by decide) CodeTable.default_usesModes⟩

lemma moderate_copiedTable (h : zeros ≤ 100000) :
    (copiedTable zeros).Moderate ample ↔ zeros + 15 ≤ 68608 := by
  have hheader : headerSize (copiedTable zeros).delta = plainHeader.length := by
    rw [headerSize, parse_copiedTable]
  have hlimit : 2 * (CodeTable.byteSize : Int) + Limits.encodingOverhead = 68608 := by decide
  rw [TableSection.Moderate, hheader, (decode_copiedTable h).2, hlimit]
  simp only [encodedSizes, List.mem_singleton, forall_eq, Nat.add_sub_cancel_left]
  omega

lemma not_moderate_copiedTable : ¬ (copiedTable 70000).Moderate ample := by
  rw [moderate_copiedTable (by decide)]
  decide

def copiedTableHeader (zeros : Nat) : Bytes :=
  FileHeader.signature ++ ([FileHeader.version] ++ [FileHeader.indicatorOf true false]) ++
    ((Varint.write ((copiedTable zeros).delta.length + 2) ++
      ([6] ++ ([1] ++ (copiedTable zeros).delta))) ++ [])

lemma parse_copiedTableHeader (h : zeros ≤ 100000) :
    FileHeader.parse (.ofBytes 0 (copiedTableHeader zeros))
      = .ok ⟨some (copiedTable zeros), none, (copiedTableHeader zeros).length⟩ := by
  have hlength : (copiedTable zeros).delta.length = zeros + 20 := by
    simp [copiedTable, plainHeader, length_copyTableWindow]
  have hwritten : Varint.Written ((copiedTable zeros).delta.length + 2)
      (Varint.write ((copiedTable zeros).delta.length + 2)) :=
    ⟨by rw [hlength, Varint.maxValue]; omega, 0, rfl⟩
  have hform : FileHeader.Form (some (copiedTable zeros)) none (copiedTableHeader zeros) :=
    .mk (.some 6 1 hwritten) .none
  exact FileHeader.parse_of_form hform rfl (List.append_nil _).symm

end CopiedTable

namespace Session

/-- An addition, and a copy from the fifth near address, which the default sizes do not have. -/
def nearWindow : Window := ⟨0, none, 11, 7, none, 7, [97, 98, 99], [4, 116], [1]⟩

/-- With no zeros the table is read, and a window is replayed with it. With seventy thousand zeros
it is refused. -/
theorem readHeader_of_table_copied :
    (∃ found, ((start #[] (.default ample)).readHeader (.ofBytes 0 (copiedTableHeader 0))).1
        = .ok found) ∧
      (((start #[] (.default ample)).readHeader (.ofBytes 0 (copiedTableHeader 0))).2.decodeWindow
        (.ofBytes 0 [0, 11, 7, 0, 3, 2, 1, 97, 98, 99, 4, 116, 1])).1
        = .ok ⟨#[97, 98, 99, 98, 99, 98, 99], 13⟩ ∧
      (start #[] (.default ample)).readHeader (.ofBytes 0 (copiedTableHeader 70000))
        = (.error (.invalid .decodedTableTooLarge), start #[] (.default ample)) := by
  have hspells := spells_copiedTable (Nat.zero_le 100000)
  have hmoderate := (moderate_copiedTable (Nat.zero_le 100000)).2 (by decide)
  have hparse := parse_copiedTableHeader (Nat.zero_le 100000)
  obtain ⟨hread, -, hwindow⟩ := readHeader_of_table (s := start #[] (.default ample))
    Bool.false_ne_true hparse rfl (plain_copiedTable 0)
  obtain ⟨-, hrefused, -⟩ := readHeader_of_table (s := start #[] (.default ample))
    Bool.false_ne_true (@parse_copiedTableHeader 70000 (by decide)) rfl (plain_copiedTable 70000)
  refine ⟨hread.2 ⟨hmoderate, _, hspells⟩, ?_,
    hrefused _ (spells_copiedTable (by decide)) not_moderate_copiedTable⟩
  · have hload : loadTable ample ⟨some (copiedTable 0), none, (copiedTableHeader 0).length⟩
        = .ok nearTable :=
      (TableSection.loadTable_eq_ok_iff rfl (plain_copiedTable 0)).2 ⟨hmoderate, hspells⟩
    have hinstall := readHeader_start #[] (.default ample) hparse hload
    obtain ⟨t, ht⟩ : ∃ t, t = ((start #[] (.default ample)).readHeader
      (.ofBytes 0 (copiedTableHeader 0))).2 := ⟨_, rfl⟩
    have hopen : t.openWindow (.ofBytes 0 [0, 11, 7, 0, 3, 2, 1, 97, 98, 99, 4, 116, 1])
        = .ok (nearWindow, #[]) := by
      rw [ht, hinstall]
      exact openWindow_eq_ok_iff.2 ⟨by decide +kernel, rfl⟩
    have hreplay : nearWindow.replay nearTable (copiedTable 0).nearSize (copiedTable 0).sameSize #[]
        = .ok #[97, 98, 99, 98, 99, 98, 99] := by decide +kernel
    rw [← ht] at hwindow ⊢
    have hdecode := hwindow nearTable hspells hmoderate []
      (.ofBytes 0 [0, 11, 7, 0, 3, 2, 1, 97, 98, 99, 4, 116, 1])
    simp only [after, hopen, hreplay] at hdecode
    exact hdecode

/-- A table that is spelled, though in many bytes, is not always read. -/
theorem readHeader_of_table_not_spelled :
    ¬ ∀ (s : Session) (i : Input) (header : FileHeader) (declared : TableSection),
      ¬ s.header.isSome → FileHeader.parse i = .ok header → header.table = some declared →
      declared.Plain →
        ((∃ found, (s.readHeader i).1 = .ok found) ↔
          ∃ table, declared.Spells s.limits.canAllocate table) := by
  intro hall
  have hle : 70000 ≤ 100000 := by decide
  have hparse := parse_copiedTableHeader hle
  have hspells := spells_copiedTable hle
  have hload : loadTable ample ⟨some (copiedTable 70000), none, (copiedTableHeader 70000).length⟩
      = .error .decodedTableTooLarge :=
    TableSection.loadTable_of_not_moderate rfl (plain_copiedTable 70000) hspells
      not_moderate_copiedTable
  have hread := readHeader_of_ok (s := start #[] (.default ample)) Bool.false_ne_true hparse
  obtain ⟨found, hfound⟩ := (hall (start #[] (.default ample)) _ _ _ Bool.false_ne_true hparse rfl
    (plain_copiedTable 70000)).2 ⟨_, hspells⟩
  have hplatform : (start #[] (.default ample)).limits.canAllocate = ample := rfl
  rw [hread, hplatform, hload] at hfound
  cases hfound

end Session

end Vcdiff
