import Agora.UploadStaging

/-!
# What the staging of a part leaves

The temporary file, the digest and the size of a part agree with the bytes of its chunks,
and the limits hold inclusively.  For CSV and binary parts the result depends on these bytes
alone, as long as the number of chunks stays within its limit.
-/

namespace Agora

/-! ## Writing and replaying -/

theorem writeAllFrom_ok_iff {device : StagingDevice} {index fuel : ℕ}
    {file remaining result : Bytes} (hfuel : remaining.length ≤ fuel) :
    writeAllFrom device index fuel file remaining = .ok result ↔
      result = file ++ remaining ∧
        (remaining = [] ∨ file.length + remaining.length ≤ device.capacity index) := by
  induction fuel generalizing file remaining with
  | zero =>
      have hempty : remaining = [] := List.eq_nil_of_length_eq_zero (by omega)
      simp [writeAllFrom, hempty, eq_comm]
  | succ fuel ih =>
      by_cases hempty : remaining = []
      · simp [writeAllFrom, hempty, eq_comm]
      · have hpositive : 0 < remaining.length := List.length_pos_iff.mpr hempty
        rw [writeAllFrom, if_neg hempty, StagingDevice.write, or_iff_right hempty]
        by_cases hfull : device.capacity index ≤ file.length
        · rw [if_pos hfull]
          simp only [reduceCtorEq, false_iff, not_and]
          omega
        · rw [if_neg hfull]
          simp only
          generalize hwritten : min remaining.length
            (min (device.capacity index - file.length)
              (device.progress index file.length + 1)) = written
          have hbounds : 1 ≤ written ∧ written ≤ remaining.length ∧
              written ≤ device.capacity index - file.length := by
            omega
          rw [ih (by rw [List.length_drop]; omega), List.append_assoc, List.take_append_drop]
          refine and_congr_right fun _ => ?_
          rw [List.drop_eq_nil_iff, List.length_append, List.length_take, List.length_drop]
          omega

theorem writeAll_ok_iff {device : StagingDevice} {index : ℕ} {file chunk result : Bytes} :
    writeAll device index file chunk = .ok result ↔
      result = file ++ chunk ∧
        (chunk = [] ∨ file.length + chunk.length ≤ device.capacity index) :=
  writeAllFrom_ok_iff le_rfl

theorem iterChunksFrom_flatten {chunkSize fuel : ℕ} {stream : Bytes} (hsize : 0 < chunkSize)
    (hfuel : stream.length ≤ fuel) : (iterChunksFrom chunkSize fuel stream).flatten = stream := by
  induction fuel generalizing stream with
  | zero =>
      rw [List.eq_nil_of_length_eq_zero (Nat.le_zero.mp hfuel)]
      rfl
  | succ fuel ih =>
      rw [iterChunksFrom]
      by_cases hempty : stream = []
      · simp [hempty]
      · have htake : stream.take chunkSize ≠ [] := by
          rw [Ne, List.take_eq_nil_iff]
          exact not_or.mpr ⟨hsize.ne', hempty⟩
        have hpositive := List.length_pos_iff.mpr hempty
        rw [if_neg htake, List.flatten_cons, ih (by rw [List.length_drop]; omega),
          List.take_append_drop]

/-- The replay of a staged file. -/
theorem iterChunks_flatten {file : StagedUploadFile} {chunkSize : ℕ} (hsize : 0 < chunkSize) :
    (file.iterChunks chunkSize).flatten = file.stream :=
  iterChunksFrom_flatten hsize le_rfl

/-! ## The loop over the chunks -/

section Loop

variable {π : Type} {tables : UploadTables} {parser : HtmlParser π} {device : StagingDevice}
  {sha256 : Bytes → Text} {context : PackageContext} {staging last : PartStaging π}
  {count : ℕ}

theorem stageBytes_ok_iff {chunk : Bytes} :
    staging.stageBytes tables parser device context chunk = .ok last ↔
      staging.byteSize + chunk.length ≤ context.limits.maxFileBytes ∧
        staging.totalSize + chunk.length ≤ context.limits.maxTotalBytes ∧
        (chunk = [] ∨
          staging.temporary.length + chunk.length ≤ device.capacity context.index) ∧
        ∃ content, staging.content.feed tables parser context chunk = .ok content ∧
          last = ⟨staging.byteSize + chunk.length, staging.totalSize + chunk.length, content,
            staging.temporary ++ chunk, staging.digested ++ chunk⟩ := by
  simp only [PartStaging.stageBytes, bind_eq_ok_iff, refuse_eq_ok, not_lt, writeAll_ok_iff,
    Except.ok.injEq]
  constructor
  · rintro ⟨_, hfile, _, htotal, content, hcontent, temporary, ⟨rfl, hroom⟩, rfl⟩
    exact ⟨hfile, htotal, hroom, content, hcontent, rfl⟩
  · rintro ⟨hfile, htotal, hroom, content, hcontent, rfl⟩
    exact ⟨⟨⟩, hfile, ⟨⟩, htotal, content, hcontent, _, ⟨rfl, hroom⟩, rfl⟩

theorem stageChunks_cons_ok_iff {chunk : Chunk} {rest : List Chunk} :
    PartStaging.stageChunks tables parser device context count staging (chunk :: rest) =
        .ok last ↔
      ∃ piece, chunk = .bytes piece ∧ count + 1 ≤ context.limits.maxChunksPerFile ∧
        ∃ next, staging.stageBytes tables parser device context piece = .ok next ∧
          PartStaging.stageChunks tables parser device context (count + 1) next rest =
            .ok last := by
  cases chunk with
  | bytes piece =>
      simp only [PartStaging.stageChunks, bind_eq_ok_iff, refuse_eq_ok, not_lt, Chunk.bytes.injEq,
        exists_eq_left']
      constructor
      · rintro ⟨_, hcount, hrest⟩
        exact ⟨hcount, hrest⟩
      · rintro ⟨hcount, hrest⟩
        exact ⟨⟨⟩, hcount, hrest⟩
  | notBytes => simp [PartStaging.stageChunks, bind_eq_ok_iff]
  | raises => simp [PartStaging.stageChunks]

/-- The sizes, the file and the digest of a part agree with the bytes read so far. -/
structure PartStaging.Measures (limits : UploadLimits) (total : ℕ) (bytes : Bytes)
    (staging : PartStaging π) : Prop where
  byteSize : staging.byteSize = bytes.length
  totalSize : staging.totalSize = total + bytes.length
  temporary : staging.temporary = bytes
  digested : staging.digested = bytes
  fileBound : bytes.length ≤ limits.maxFileBytes
  totalBound : total ≤ limits.maxTotalBytes → total + bytes.length ≤ limits.maxTotalBytes

theorem PartStaging.Measures.start (limits : UploadLimits) (kind : UploadKind) (total : ℕ) :
    (PartStaging.start parser kind total).Measures limits total [] :=
  ⟨rfl, rfl, rfl, rfl, Nat.zero_le _, id⟩

theorem PartStaging.Measures.stageBytes {total : ℕ} {bytes chunk : Bytes}
    (hmeasures : staging.Measures context.limits total bytes)
    (haccept : staging.stageBytes tables parser device context chunk = .ok last) :
    last.Measures context.limits total (bytes ++ chunk) := by
  obtain ⟨hfile, htotal, _, content, _, rfl⟩ := stageBytes_ok_iff.mp haccept
  rw [hmeasures.byteSize] at hfile
  rw [hmeasures.totalSize] at htotal
  constructor
  · simp [hmeasures.byteSize]
  · simp [hmeasures.totalSize, Nat.add_assoc]
  · simp [hmeasures.temporary]
  · simp [hmeasures.digested]
  · rwa [List.length_append]
  · intro _
    rw [List.length_append]
    omega

/-- An accepted loop has read bytes only, and measured them. -/
theorem PartStaging.Measures.stageChunks {total : ℕ} {bytes : Bytes} {chunks : List Chunk}
    (hmeasures : staging.Measures context.limits total bytes)
    (haccept : PartStaging.stageChunks tables parser device context count staging chunks =
      .ok last) :
    ∃ pieces : List Bytes, chunks = pieces.map Chunk.bytes ∧
      last.Measures context.limits total (bytes ++ pieces.flatten) := by
  induction chunks generalizing count staging bytes with
  | nil =>
      rw [PartStaging.stageChunks, Except.ok.injEq] at haccept
      subst haccept
      refine ⟨[], rfl, ?_⟩
      rwa [List.flatten_nil, List.append_nil]
  | cons chunk rest ih =>
      obtain ⟨piece, rfl, _, next, hnext, hrest⟩ := stageChunks_cons_ok_iff.mp haccept
      obtain ⟨pieces, rfl, hlast⟩ := ih (hmeasures.stageBytes hnext) hrest
      refine ⟨piece :: pieces, rfl, ?_⟩
      rwa [List.flatten_cons, ← List.append_assoc]

/-! ## Chunks that are cut differently -/

/-- The content of a CSV or of a binary part. -/
def ContentValidator.IsPlain : ContentValidator π → Prop
  | .html _ _ => False
  | .css _ _ => False
  | .csv _ => True
  | .binary => True

theorem decodeChunk_append {decoder final : Utf8.MarkedDecoder} {first second : Bytes} :
    (∃ text, decodeChunk context decoder (first ++ second) = .ok (final, text)) ↔
      ∃ middle before, decodeChunk context decoder first = .ok (middle, before) ∧
        ∃ after, decodeChunk context middle second = .ok (final, after) := by
  unfold decodeChunk
  rw [Utf8.MarkedDecoder.feed_append]
  cases decoder.feed first with
  | none => simp
  | some fed =>
      obtain ⟨middle, before⟩ := fed
      simp only [Option.bind_some, bind_eq_ok_iff, refuse_eq_ok, Except.ok.injEq, Prod.mk.injEq]
      cases hsecond : middle.feed second with
      | none =>
          simp only [Option.map_none, reduceCtorEq, exists_false, false_iff, not_exists, not_and]
          rintro found text ⟨_, _, rfl, rfl⟩ after hafter
          simp [hsecond] at hafter
      | some released =>
          obtain ⟨last, after⟩ := released
          simp only [Option.map_some, bind_eq_ok_iff, refuse_eq_ok, Except.ok.injEq, Prod.mk.injEq,
            List.any_append, Bool.or_eq_true, not_or]
          constructor
          · rintro ⟨text, _, ⟨hbefore, hafter⟩, rfl, rfl⟩
            refine ⟨middle, before, ⟨⟨⟩, hbefore, rfl, rfl⟩, after, ?_⟩
            rw [hsecond]
            simp [hafter, bind_eq_ok_iff]
          · rintro ⟨found, text, ⟨_, hbefore, rfl, rfl⟩, other, hother⟩
            rw [hsecond] at hother
            simp only [bind_eq_ok_iff, refuse_eq_ok, Except.ok.injEq, Prod.mk.injEq] at hother
            obtain ⟨_, hafter, rfl, rfl⟩ := hother
            exact ⟨_, ⟨⟩, ⟨hbefore, hafter⟩, rfl, rfl⟩

theorem feed_csv_ok_iff {decoder : Utf8.MarkedDecoder} {chunk : Bytes}
    {content : ContentValidator π} :
    (ContentValidator.csv decoder).feed tables parser context chunk = .ok content ↔
      ∃ next, content = .csv next ∧
        ∃ text, decodeChunk context decoder chunk = .ok (next, text) := by
  simp only [ContentValidator.feed, bind_eq_ok_iff, Except.ok.injEq]
  constructor
  · rintro ⟨⟨next, text⟩, hchunk, rfl⟩
    exact ⟨next, rfl, text, hchunk⟩
  · rintro ⟨next, rfl, text, hchunk⟩
    exact ⟨(next, text), hchunk, rfl⟩

theorem feed_plain_append {content final : ContentValidator π} {first second : Bytes}
    (hplain : content.IsPlain) :
    content.feed tables parser context (first ++ second) = .ok final ↔
      ∃ middle, content.feed tables parser context first = .ok middle ∧ middle.IsPlain ∧
        middle.feed tables parser context second = .ok final := by
  cases content with
  | html decoder reading => cases hplain
  | css decoder validator => cases hplain
  | binary => simp [ContentValidator.feed, ContentValidator.IsPlain]
  | csv decoder =>
      simp only [feed_csv_ok_iff]
      constructor
      · rintro ⟨next, rfl, htext⟩
        obtain ⟨middle, before, hfirst, hsecond⟩ := decodeChunk_append.mp htext
        exact ⟨.csv middle, ⟨middle, rfl, before, hfirst⟩, trivial,
          feed_csv_ok_iff.mpr ⟨next, rfl, hsecond⟩⟩
      · rintro ⟨_, ⟨middle, rfl, before, hfirst⟩, _, hsecond⟩
        obtain ⟨next, rfl, hnext⟩ := feed_csv_ok_iff.mp hsecond
        exact ⟨next, rfl, decodeChunk_append.mpr ⟨middle, before, hfirst, hnext⟩⟩

theorem feed_plain_nil {content : ContentValidator π} (hplain : content.IsPlain) :
    content.feed tables parser context [] = .ok content := by
  cases content with
  | html decoder reading => cases hplain
  | css decoder validator => cases hplain
  | binary => rfl
  | csv decoder =>
      rw [feed_csv_ok_iff]
      refine ⟨decoder, rfl, [], ?_⟩
      cases decoder with
      | mk atStart state => cases atStart <;> rfl

theorem feed_plain_plain {content next : ContentValidator π} {chunk : Bytes}
    (hplain : content.IsPlain) (haccept : content.feed tables parser context chunk = .ok next) :
    next.IsPlain := by
  rw [← List.append_nil chunk, feed_plain_append hplain] at haccept
  obtain ⟨middle, _, hmiddle, hend⟩ := haccept
  rw [feed_plain_nil hmiddle, Except.ok.injEq] at hend
  rwa [← hend]

/-- Nothing that the staging has kept so far exceeds its limit. -/
structure PartStaging.Within (device : StagingDevice) (context : PackageContext)
    (staging : PartStaging π) : Prop where
  file : staging.byteSize ≤ context.limits.maxFileBytes
  total : staging.totalSize ≤ context.limits.maxTotalBytes
  room : staging.temporary.length ≤ device.capacity context.index

/-- The chunks of a plain part leave what their bytes leave as one chunk. -/
theorem stageChunks_plain_iff {pieces : List Bytes} (hplain : staging.content.IsPlain)
    (hwithin : staging.Within device context)
    (hcount : count + pieces.length ≤ context.limits.maxChunksPerFile) :
    PartStaging.stageChunks tables parser device context count staging
        (pieces.map Chunk.bytes) = .ok last ↔
      staging.stageBytes tables parser device context pieces.flatten = .ok last := by
  induction pieces generalizing count staging with
  | nil =>
      rw [List.flatten_nil, stageBytes_ok_iff, feed_plain_nil hplain]
      simp [PartStaging.stageChunks, hwithin.file, hwithin.total, eq_comm]
  | cons piece rest ih =>
      rw [List.length_cons] at hcount
      have hroom := hwithin.room
      rw [List.map_cons, stageChunks_cons_ok_iff, List.flatten_cons, stageBytes_ok_iff]
      simp only [Chunk.bytes.injEq, exists_eq_left', feed_plain_append hplain, List.length_append,
        List.append_eq_nil_iff]
      constructor
      · rintro ⟨_, next, hnext, hrest⟩
        obtain ⟨hfile, htotal, hfirst, middle, hmiddle, rfl⟩ := stageBytes_ok_iff.mp hnext
        have hkept := feed_plain_plain hplain hmiddle
        have hspace : staging.temporary.length + piece.length ≤ device.capacity context.index := by
          cases hfirst with
          | inl hempty => simpa [hempty] using hroom
          | inr hspace => exact hspace
        have hnext : PartStaging.Within device context
            ⟨staging.byteSize + piece.length, staging.totalSize + piece.length, middle,
              staging.temporary ++ piece, staging.digested ++ piece⟩ :=
          ⟨hfile, htotal, by rwa [List.length_append]⟩
        rw [ih hkept hnext (by omega), stageBytes_ok_iff] at hrest
        obtain ⟨hfile, htotal, hrestSpace, content, hcontent, rfl⟩ := hrest
        dsimp only at hfile htotal
        refine ⟨by omega, by omega, ?_, content, ⟨middle, hmiddle, hkept, hcontent⟩, ?_⟩
        · simp only [List.length_append] at hrestSpace
          cases hrestSpace with
          | inl hempty =>
              rw [hempty, List.length_nil]
              exact .inr hspace
          | inr hlonger => exact .inr (by omega)
        · simp [Nat.add_assoc]
      · rintro ⟨hfile, htotal, hspace, content, ⟨middle, hmiddle, hkept, hcontent⟩, rfl⟩
        have hspace : staging.temporary.length + (piece.length + rest.flatten.length) ≤
            device.capacity context.index := by
          cases hspace with
          | inl hempty => simpa [hempty.1, hempty.2] using hroom
          | inr hspace => exact hspace
        have hnext : PartStaging.Within device context
            ⟨staging.byteSize + piece.length, staging.totalSize + piece.length, middle,
              staging.temporary ++ piece, staging.digested ++ piece⟩ :=
          ⟨by dsimp only; omega, by dsimp only; omega, by rw [List.length_append]; omega⟩
        refine ⟨by omega, _, stageBytes_ok_iff.mpr ⟨by omega, by omega, .inr (by omega), middle,
          hmiddle, rfl⟩, ?_⟩
        rw [ih hkept hnext (by omega), stageBytes_ok_iff]
        dsimp only
        refine ⟨by omega, by omega, .inr ?_, content, hcontent, ?_⟩
        · rw [List.length_append]
          omega
        · simp [Nat.add_assoc]

end Loop

end Agora
