import Netpoll.SendRuns
import Netpoll.WriteList

/-!
# Files without `sendfile`

On other systems than Linux `sendFileInLoop` sends a file by `read` and
`write` (its case 3), through the vector of `m_fileBufferPtr`. Streams use
the same vector. For a file its size is the amount to read at once; for a
stream it holds the bytes that are still to be written. Neither case puts
it into the state that the other one needs.

`Portable` is the connection of such a build. The vector is the
`fileBuffer` of `Conn`; `allocated` says that the pointer is set. While
all that is sent are files, or all are streams, `Flow` holds of the
connection seen without the vector, or with it (`Conn.view`).
-/

namespace Netpoll

namespace Conn

/-- `read` into the vector: at most its size, and at most what is left to
send. -/
def readFile (c : Conn) (file : List Byte) (filePtr : BufferNode) : List Byte × Conn :=
  let data := slice file filePtr.offset
    (filePtr.offset + min c.fileBuffer.length filePtr.fileBytesToSend)
  (data, { c with fileBuffer := splice c.fileBuffer 0 data })

/-- The `while` loop of case 3; `fuel` bounds its iterations. The position in
the file is `m_offset` whenever it reads: a partial write ends the loop. -/
def fileLoop (file : List Byte) : Nat → Conn → BufferNode → Except Fault (Conn × BufferNode)
  | 0, _, _ => .error .stackOverflow
  | fuel + 1, c, filePtr =>
    if filePtr.fileBytesToSend > 0 then
      let (data, c) := c.readFile file filePtr
      if data.length > 0 then
        match c.writeInLoop data with
        | (.count nSend, c) =>
            let filePtr := { filePtr with
              offset := filePtr.offset + nSend
              fileBytesToSend := filePtr.fileBytesToSend - nSend }
            if nSend < data.length then .ok (c.startWriting, filePtr)
            else fileLoop file fuel c filePtr
        | (.failed e, c) =>
            if writeSocketError e then .ok (c, filePtr) else .ok (c.startWriting, filePtr)
      else
        -- the file is truncated, or there is no room to read into
        .ok (c, filePtr)
    else .ok (c.startWriting, filePtr)

/-- `sendFileInLoop` without its case 1. -/
def sendFileInLoopPortable (c : Conn) (allocated : Bool) (filePtr : BufferNode) :
    Except Fault (Conn × BufferNode) :=
  match filePtr.streamCallback, filePtr.sendFd with
  | some _, _ =>
      let c := if allocated then c else { c with fileBuffer := [] }
      streamLoop (streamFuel filePtr) c filePtr
  | none, some file =>
      let c := if allocated then c else { c with fileBuffer := List.replicate kFileBuffer 0 }
      fileLoop file (filePtr.fileBytesToSend + 1) c filePtr
  | none, none => .error .assertion

def runPortable (c : Conn) (allocated : Bool) (node : BufferNode) (rest : List BufferNode) :
    Except Fault (Conn × Bool) := do
  let (c, node) ← c.sendFileInLoopPortable allocated node
  return ({ c with writeBufferList := node :: rest }, true)

end Conn

/-! ## The machine -/

structure Portable where
  conn : Conn
  allocated : Bool

inductive PortAct where
  | sendFile (file : List Byte) (offset length : Nat)
  | sendStream (chunks : List Chunk)
  /-- The socket is writable. -/
  | writable
  | resume
deriving DecidableEq

structure PortLabel where
  act : PortAct
  env : Env
deriving DecidableEq

/-- The range of a file lies inside it. -/
def PortAct.InRange : PortAct → Prop
  | .sendFile file offset length =>
      0 < fileLength file length ∧ offset + fileLength file length ≤ file.length
  | _ => True

instance : DecidablePred PortAct.InRange
  | .sendFile file offset length => inferInstanceAs
      (Decidable (0 < fileLength file length ∧ offset + fileLength file length ≤ file.length))
  | .sendStream _ | .writable | .resume => .isTrue trivial

def PortAct.payload : PortAct → List Byte
  | .sendFile file offset length => slice file offset (offset + fileLength file length)
  | .sendStream chunks => streamPayload chunks
  | _ => []

namespace Portable

def established (readBuffer : MessageBuffer) (callbacks : Callbacks) (env : Env) : Portable :=
  ⟨Conn.established readBuffer callbacks env, false⟩

def ofPair (r : Conn × Bool) : Portable := ⟨r.1, r.2⟩

def exec (s : Portable) : PortAct → Except Fault Portable
  | .sendFile file offset length => do
      let r ← s.conn.sendFileWith Conn.runPortable s.allocated file offset (fileLength file length)
      return ofPair r
  | .sendStream chunks => do
      let r ← s.conn.sendStreamWith Conn.runPortable s.allocated (some chunks)
      return ofPair r
  | .writable => do
      let r ← s.conn.handleWriteWith Conn.runPortable s.allocated
      return ofPair r
  | .resume =>
      match s.conn.frames with
      | [] => .ok s
      | f :: fs => do
          let c ← { s.conn with frames := fs }.resume f
          return ⟨c, s.allocated⟩

def Enabled (s : Portable) : PortAct → Prop
  | .sendFile .. | .sendStream _ => s.conn.frames = [] ∨ s.conn.frames.head? = some .callback
  | .writable => s.conn.frames = []
  | .resume => s.conn.frames ≠ []

instance (s : Portable) : DecidablePred s.Enabled
  | .sendFile .. | .sendStream _ =>
      inferInstanceAs (Decidable (s.conn.frames = [] ∨ s.conn.frames.head? = some .callback))
  | .writable => inferInstanceAs (Decidable (s.conn.frames = []))
  | .resume => inferInstanceAs (Decidable (s.conn.frames ≠ []))

def withEnv (s : Portable) (env : Env) : Portable := { s with conn := { s.conn with env } }

/-- What is still to be sent: the vector, if it belongs to a stream at the
front, and then the nodes. -/
def pending (s : Portable) : List Byte :=
  (if s.conn.writeBufferList.head?.any (·.streamCallback.isSome) then s.conn.fileBuffer else []) ++
    s.conn.writeBufferList.flatMap BufferNode.pending

/-- The loop goes on, without further calls: what is left to do is done, and
then the socket is writable again. -/
def drive (s : Portable) (envs : List Env) : Except Fault Portable :=
  envs.foldlM (fun s env =>
    (s.withEnv env).exec (if s.conn.frames = [] then .writable else .resume)) s

end Portable

/-- One step of the portable connection; the kernel never answers a fatal
error. -/
def PortStep (s : Portable) (l : PortLabel) (s' : Portable) : Prop :=
  s.Enabled l.act ∧ l.act.InRange ∧ (∀ e, .failed e ∈ l.env.io → e = .wouldBlock) ∧
    (s.withEnv l.env).exec l.act = .ok s'

/-- The run of some labels on a socket that takes or refuses, and a test of
where it ends. -/
def Portable.reaches (P : Portable → Bool) (s : Portable) (ls : List PortLabel) : Bool :=
  runsTo (fun s l => (s.withEnv l.env).exec l.act)
    (fun s l => decide (s.Enabled l.act ∧ l.act.InRange ∧
      ∀ e ∈ [Errno.pipe, .connReset, .other], .failed e ∉ l.env.io)) P s ls

theorem Portable.exists_run (P : Portable → Bool) (s : Portable) (ls : List PortLabel)
    (h : s.reaches P ls = true) : ∃ t, Run PortStep s ls t ∧ P t = true := by
  refine exists_run_of_runsTo (fun s l t hC hexec => ?_) h
  obtain ⟨hen, hrange, hio⟩ := of_decide_eq_true hC
  refine ⟨hen, hrange, fun e he => ?_, hexec⟩
  cases e with
  | wouldBlock => rfl
  | pipe | connReset | other => exact absurd he (hio _ (by simp))

/-- What is sent, if anything, is a stream, or else a file. -/
def PortAct.OfKind (streams : Bool) : PortAct → Prop
  | .sendFile .. => streams = false
  | .sendStream _ => streams = true
  | _ => True

/-- Only files are sent, or only streams. -/
def OneKind (ls : List PortLabel) : Prop := ∃ streams, ∀ l ∈ ls, l.act.OfKind streams

/-- The socket takes at least one byte. -/
def Env.HasRoom (env : Env) : Prop :=
  (∃ m rs, env.io = .count (m + 1) :: rs) ∧ ∀ e, .failed e ∈ env.io → e = .wouldBlock

/-! ## One run of `sendFileInLoop` -/

namespace Conn

/-- The vector counts as output only where streams are sent. -/
def view (streams : Bool) (c : Conn) : Conn :=
  { c with fileBuffer := if streams then c.fileBuffer else [] }

theorem Emits.view {c c' : Conn} (h : Emits c c') (streams : Bool) :
    Emits (c.view streams) (c'.view streams) := by
  obtain ⟨ch, fb, total, env, evs, rfl, hevs, hnf⟩ := h
  exact ⟨ch, _, total, env, evs, rfl, hevs, hnf⟩

theorem Emits.sent_le {c c' : Conn} (h : Emits c c') : c.sent.length ≤ c'.sent.length := by
  obtain ⟨ch, fb, total, env, evs, rfl, -, -⟩ := h
  simp only [Conn.sent, sentOf_append, List.length_append]
  exact Nat.le_add_right _ _

/-- What a run of `sendFileInLoop` does, and that it gets on. -/
structure Ran (streams : Bool) (c : Conn) (node : BufferNode) (r : Conn × BufferNode) : Prop where
  sent : FileSent True (c.view streams) node (r.1.view streams) r.2
  kind : r.2.streamCallback.isSome = streams
  vector : streams = false → r.1.fileBuffer ≠ []
  writing : c.NonFatal → r.1.channel.isWriting = true
  left : r.2.fileBytesToSend ≤ node.fileBytesToSend
  moves : c.TakesSome → 0 < node.fileBytesToSend →
    c.sent.length < r.1.sent.length ∨ r.2.fileBytesToSend = 0

variable {c c' : Conn} {node : BufferNode} {file : List Byte}

theorem Ran.sent_le {streams : Bool} {r : Conn × BufferNode} (h : Ran streams c node r) :
    c.sent.length ≤ r.1.sent.length := by
  have hle := Emits.sent_le h.sent.emits
  exact hle

theorem fileSent_advance {n : Nat} (hs : node.streamCallback = none) (hf : node.sendFd = some file)
    (hr : node.offset + node.fileBytesToSend ≤ file.length) (hn : n ≤ node.fileBytesToSend)
    (he : Emits c c') (hsent : c'.sent = c.sent ++ slice file node.offset (node.offset + n))
    (hkeeps : c.NonFatal → c.channel.isWriting = true → c'.channel.isWriting = true) :
    FileSent True (c.view false) node (c'.view false)
      { node with offset := node.offset + n, fileBytesToSend := node.fileBytesToSend - n } where
  emits := he.view false
  ok := by
    refine ok_file hs hf ?_
    simp only
    omega
  isFile := isFile_file hf
  staged hne := absurd rfl hne
  flow := by
    show c'.sent ++ ([] ++ _) = c.sent ++ ([] ++ _)
    rw [pending_advance hs hf hn, hsent]
    simp only [List.nil_append, List.append_assoc]
  keeps := hkeeps

theorem TakesSome.write (h : c.TakesSome) (buffer : List Byte) :
    ∃ m, (c.writeInLoop buffer).1 = .count (min (m + 1) buffer.length) := by
  obtain ⟨m, rs, hio⟩ := h
  refine ⟨m, ?_⟩
  simp only [writeInLoop, nextIo, hio]

theorem ran_idle (hs : node.streamCallback = none) (hf : node.sendFd = some file)
    (hr : node.offset + node.fileBytesToSend ≤ file.length) (he : Emits c c')
    (hsent : c'.sent = c.sent) (hfb : c'.fileBuffer ≠ [])
    (hwriting : c.NonFatal → c'.channel.isWriting = true)
    (hno : ¬ (c.TakesSome ∧ 0 < node.fileBytesToSend)) : Ran false c node (c', node) where
  sent := fileSent_advance (n := 0) hs hf hr (Nat.zero_le _) he (by simp [hsent])
    fun hnf _ => hwriting hnf
  kind := by rw [hs]; rfl
  vector _ := hfb
  writing := hwriting
  left := Nat.le_refl _
  moves htakes hpos := absurd ⟨htakes, hpos⟩ hno

/-- A `read` from a file that has bytes left to send, into a vector with
room. -/
structure ReadSome (file : List Byte) (c : Conn) (node : BufferNode) (r : List Byte × Conn) :
    Prop where
  data : r.1 = slice file node.offset (node.offset + r.1.length)
  pos : 0 < r.1.length
  le : r.1.length ≤ node.fileBytesToSend
  emits : Emits c r.2
  sent : r.2.sent = c.sent
  vector : r.2.fileBuffer ≠ []
  env : r.2.env = c.env
  channel : r.2.channel = c.channel

theorem readFile_some (hr : node.offset + node.fileBytesToSend ≤ file.length)
    (hfb : c.fileBuffer ≠ []) (hpos : 0 < node.fileBytesToSend) :
    ReadSome file c node (c.readFile file node) := by
  have hroom := List.length_pos_iff.mpr hfb
  have hlength : (c.readFile file node).1.length =
      min c.fileBuffer.length node.fileBytesToSend := by
    rw [readFile, slice_length (by omega)]
    omega
  refine ⟨?_, by omega, by omega, Emits.fileBuffer .., rfl, ?_, rfl, rfl⟩
  · rw [hlength]
    rfl
  · rw [← List.length_pos_iff]
    show 0 < (splice c.fileBuffer 0 (c.readFile file node).1).length
    rw [splice_length (by omega)]
    exact hroom

/-- The kernel has taken `n` of the bytes read. -/
structure Wrote (file : List Byte) (c : Conn) (node : BufferNode) (n : Nat) (c' : Conn) : Prop where
  le : n ≤ node.fileBytesToSend
  emits : Emits c c'
  sent : c'.sent = c.sent ++ slice file node.offset (node.offset + n)
  vector : c'.fileBuffer ≠ []
  channel : c'.channel = c.channel
  takes : c.TakesSome → 0 < n

/-- The kernel has taken none of them. -/
structure WroteNone (c : Conn) (e : Errno) (c' : Conn) : Prop where
  emits : Emits c c'
  sent : c'.sent = c.sent
  vector : c'.fileBuffer ≠ []
  errno : c.NonFatal → e = .wouldBlock
  takes : ¬ c.TakesSome

theorem ReadSome.write_cases {data : List Byte} {c₁ : Conn}
    (hread : ReadSome file c node (data, c₁)) :
    (∃ n c₂, c₁.writeInLoop data = (.count n, c₂) ∧ n ≤ data.length ∧ Wrote file c node n c₂) ∨
    ∃ e c₂, c₁.writeInLoop data = (.failed e, c₂) ∧ WroteNone c e c₂ := by
  have hpos : 0 < data.length := hread.pos
  have hle : data.length ≤ node.fileBytesToSend := hread.le
  have htakes : c.TakesSome → ∃ m, (c₁.writeInLoop data).1 = .count (min (m + 1) data.length) := by
    rintro ⟨m, rs, hio⟩
    exact TakesSome.write ⟨m, rs, hread.env ▸ hio⟩ data
  obtain ⟨env, hnf, ⟨n, total, hn, heq⟩ | ⟨e, heq, hblock⟩⟩ := c₁.writeInLoop_cases data
  · refine Or.inl ⟨n, _, heq, hn, by omega,
      hread.emits.trans (Emits.sent hnf total (data.take n)), ?_, hread.vector, hread.channel,
      fun ht => ?_⟩
    · rw [← hread.sent, ← slice_take (b := node.offset + data.length) (by omega), ← hread.data]
      exact sentOf_sent ..
    · obtain ⟨m, hm⟩ := htakes ht
      rw [heq] at hm
      cases hm
      omega
  · refine Or.inr ⟨e, _, heq, hread.emits.trans (Emits.env hnf), hread.sent, hread.vector,
      fun h => hblock (hread.emits.nonFatal h), fun ht => ?_⟩
    obtain ⟨m, hm⟩ := htakes ht
    rw [heq] at hm
    cases hm

theorem Wrote.grows {n : Nat} (h : Wrote file c node n c')
    (hr : node.offset + node.fileBytesToSend ≤ file.length) (ht : c.TakesSome) :
    c.sent.length < c'.sent.length := by
  have hle := h.le
  have hpos := h.takes ht
  rw [h.sent, List.length_append, slice_length (by omega)]
  omega

theorem Wrote.ran_partial {n : Nat} (h : Wrote file c node n c')
    (hs : node.streamCallback = none) (hf : node.sendFd = some file)
    (hr : node.offset + node.fileBytesToSend ≤ file.length) :
    Ran false c node (c'.startWriting,
      { node with
        offset := node.offset + n
        fileBytesToSend := node.fileBytesToSend - n }) where
  sent := fileSent_advance hs hf hr h.le (h.emits.trans (Emits.startWriting _))
    ((sent_startWriting _).trans h.sent) fun _ _ => isWriting_startWriting _
  kind := by
    rw [hs]
    rfl
  vector _ := by
    rw [fileBuffer_startWriting]
    exact h.vector
  writing _ := isWriting_startWriting _
  left := Nat.sub_le ..
  moves ht _ := by
    rw [sent_startWriting]
    exact Or.inl (h.grows hr ht)

theorem Wrote.ran_rest {n : Nat} {r : Conn × BufferNode} (h : Wrote file c node n c')
    (hs : node.streamCallback = none) (hf : node.sendFd = some file)
    (hr : node.offset + node.fileBytesToSend ≤ file.length)
    (hran : Ran false c'
      { node with
        offset := node.offset + n
        fileBytesToSend := node.fileBytesToSend - n } r) : Ran false c node r where
  sent := by
    have hstep := fileSent_advance hs hf hr h.le h.emits h.sent fun _ hw => by
      rw [h.channel]
      exact hw
    exact hstep.trans hran.sent
  kind := hran.kind
  vector := hran.vector
  writing hnf := hran.writing (h.emits.nonFatal hnf)
  left := hran.left.trans (Nat.sub_le ..)
  moves ht _ := Or.inl ((h.grows hr ht).trans_le hran.sent_le)

theorem WroteNone.ran {e : Errno} (h : WroteNone c e c') (hs : node.streamCallback = none)
    (hf : node.sendFd = some file) (hr : node.offset + node.fileBytesToSend ≤ file.length) :
    Ran false c node (if writeSocketError e = true then c' else c'.startWriting, node) := by
  split
  next hfatal =>
    refine ran_idle hs hf hr h.emits h.sent h.vector (fun hnf => ?_) fun ht => h.takes ht.1
    rw [h.errno hnf] at hfatal
    cases hfatal
  next =>
    refine ran_idle hs hf hr (h.emits.trans (Emits.startWriting _))
      ((sent_startWriting _).trans h.sent) ?_ (fun _ => isWriting_startWriting _)
      fun ht => h.takes ht.1
    rw [fileBuffer_startWriting]
    exact h.vector

theorem fileLoop_spec {fuel : Nat} (hs : node.streamCallback = none) (hf : node.sendFd = some file)
    (hr : node.offset + node.fileBytesToSend ≤ file.length) (hfb : c.fileBuffer ≠ [])
    (hfuel : node.fileBytesToSend < fuel) :
    Post (fun _ => False) (Ran false c node) (fileLoop file fuel c node) := by
  induction fuel generalizing c node with
  | zero => omega
  | succ fuel ih =>
      unfold fileLoop
      by_cases hpos : node.fileBytesToSend > 0
      · have hread := readFile_some hr hfb hpos
        rw [if_pos hpos]
        generalize c.readFile file node = read at hread
        obtain ⟨data, c₁⟩ := read
        have hdata : 0 < data.length := hread.pos
        simp only
        rw [if_pos hdata]
        rcases hread.write_cases with ⟨n, c₂, heq, hn, hwrote⟩ | ⟨e, c₂, heq, hrefused⟩
        · rw [heq]
          simp only
          by_cases hlt : n < data.length
          · rw [if_pos hlt]
            exact hwrote.ran_partial hs hf hr
          · rw [if_neg hlt]
            have hle := hwrote.le
            refine Post.mono (ih ?_ ?_ ?_ hwrote.vector ?_) (fun _ h => h)
              fun r hran => hwrote.ran_rest hs hf hr hran
            · exact hs
            · exact hf
            · simp only
              omega
            · simp only
              omega
        · have hran := hrefused.ran hs hf hr
          rw [heq]
          simp only
          split
          next hfatal =>
            rw [if_pos hfatal] at hran
            exact hran
          next hwait =>
            rw [if_neg hwait] at hran
            exact hran
      · rw [if_neg hpos]
        refine ran_idle hs hf hr (Emits.startWriting c) (sent_startWriting c) ?_
          (fun _ => isWriting_startWriting c) fun h => hpos h.2
        rw [fileBuffer_startWriting]
        exact hfb

/-- A stream stays one, and its counter only goes to 0. -/
def StreamKept (node node' : BufferNode) : Prop :=
  node'.streamCallback.isSome = true ∧ node'.fileBytesToSend ≤ node.fileBytesToSend

theorem streamWrite_kept {loop : Conn → BufferNode → Except Fault (Conn × BufferNode)}
    (hs : node.streamCallback.isSome = true)
    (hloop : ∀ c', Post (fun _ => True) (fun r => StreamKept node r.2) (loop c' node)) :
    Post (fun _ => True) (fun r => StreamKept node r.2) (c.streamWrite node loop) := by
  have hkept : StreamKept node node := ⟨hs, Nat.le_refl _⟩
  unfold streamWrite
  generalize c.writeInLoop c.fileBuffer = answer
  obtain ⟨r, c₁⟩ := answer
  cases r with
  | count n =>
      simp only
      split
      · exact hkept
      · exact hloop _
  | failed e =>
      simp only
      split <;> exact hkept

theorem streamLoop_kept {fuel : Nat} (hs : node.streamCallback.isSome = true) :
    Post (fun _ => True) (fun r => StreamKept node r.2) (streamLoop fuel c node) := by
  induction fuel generalizing c node with
  | zero => trivial
  | succ fuel ih =>
      have hkept : StreamKept node node := ⟨hs, Nat.le_refl _⟩
      have hfetch : StreamKept node (c.fetch node).2 := by
        obtain ⟨chunks, hchunks⟩ := Option.isSome_iff_exists.mp hs
        rcases fetch_cases c hchunks with ⟨chunks', hf, -⟩ | ⟨x, xs, -, -, hf⟩
        · rw [hf]
          exact ⟨rfl, Nat.zero_le _⟩
        · rw [hf]
          exact ⟨rfl, Nat.le_refl _⟩
      unfold streamLoop
      split
      · by_cases hfb : c.fileBuffer = []
        · simp only [if_pos hfb]
          split
          · exact hfetch
          · refine (streamWrite_kept hfetch.1 fun c' => ih hfetch.1).mono (fun _ h => h) ?_
            exact fun r hr => ⟨hr.1, hr.2.trans hfetch.2⟩
        · simp only [if_neg hfb]
          exact streamWrite_kept hs fun c' => ih hs
      · exact hkept

theorem streamWrite_moves {loop : Conn → BufferNode → Except Fault (Conn × BufferNode)}
    (hne : c.fileBuffer ≠ []) (ht : c.TakesSome)
    (hloop : ∀ c', c'.fileBuffer = [] →
      Post (fun _ => False) (fun r => c'.sent.length ≤ r.1.sent.length) (loop c' node)) :
    Post (fun _ => False) (fun r => c.sent.length < r.1.sent.length) (c.streamWrite node loop) := by
  obtain ⟨m, hm⟩ := ht.write c.fileBuffer
  have hlen := List.length_pos_iff.mpr hne
  unfold streamWrite
  obtain ⟨env, -, ⟨n, total, hn, heq⟩ | ⟨e, heq, -⟩⟩ := c.writeInLoop_cases c.fileBuffer
  · rw [heq] at hm ⊢
    cases hm
    have hgrows : c.sent.length < (sentOf (c.trace ++
        [.sent (c.fileBuffer.take (min (m + 1) c.fileBuffer.length))])).length := by
      rw [sentOf_sent, List.length_append, List.length_take]
      show (sentOf c.trace).length < _
      omega
    simp only
    split
    · rw [post_ok, sent_startWriting]
      exact hgrows
    · exact (hloop _ rfl).mono (fun _ h => h) fun r hr => hgrows.trans_le hr
  · rw [heq] at hm
    cases hm

theorem streamLoop_moves {fuel : Nat} {chunks : List Chunk}
    (hs : node.streamCallback = some chunks) (hpos : 0 < node.fileBytesToSend)
    (hfuel : chunks.length + (if c.fileBuffer = [] then 0 else 1) < fuel) (ht : c.TakesSome) :
    Post (fun _ => False) (fun r => c.sent.length < r.1.sent.length ∨ r.2.fileBytesToSend = 0)
      (streamLoop fuel c node) := by
  have hloop : ∀ {fuel : Nat} {node : BufferNode} {chunks : List Chunk} (c' : Conn),
      node.streamCallback = some chunks → chunks.length < fuel → c'.fileBuffer = [] →
      Post (fun _ => False) (fun r => c'.sent.length ≤ r.1.sent.length)
        (streamLoop fuel c' node) := by
    intro fuel node chunks c' hs hfuel hfb
    have hsent : Post _ (StreamSent True c' node) _ :=
      streamLoop_spec hs (fun hne => absurd hfb hne) (by rw [if_pos hfb]; exact hfuel)
    exact hsent.mono (fun _ h => h) fun r hr => hr.1.emits.sent_le
  cases fuel with
  | zero => omega
  | succ fuel =>
      unfold streamLoop
      rw [if_pos (Or.inl hpos)]
      by_cases hfb : c.fileBuffer = []
      · rw [if_pos hfb] at hfuel
        simp only [if_pos hfb]
        rcases fetch_cases c hs with ⟨chunks', hf, -⟩ | ⟨x, xs, rfl, hne, hf⟩
        · rw [hf]
          exact Or.inr rfl
        · rw [hf]
          simp only [if_neg hne]
          rw [List.length_cons] at hfuel
          have hs' : ({ node with streamCallback := some xs } : BufferNode).streamCallback =
              some xs := rfl
          refine Post.mono (streamWrite_moves hne ht fun c' hc' => hloop c' hs' ?_ hc')
            (fun _ h => h) fun r hr => Or.inl hr
          omega
      · rw [if_neg hfb] at hfuel
        simp only [if_neg hfb]
        refine Post.mono (streamWrite_moves hfb ht fun c' hc' => hloop c' hs ?_ hc')
          (fun _ h => h) fun r hr => Or.inl hr
        omega

theorem ran_stream {chunks : List Chunk} (hs : node.streamCallback = some chunks)
    (hstaged : c.fileBuffer ≠ [] → 0 < node.fileBytesToSend) :
    Post (fun _ => False) (Ran true c node) (streamLoop (streamFuel node) c node) := by
  have hfuel : chunks.length + (if c.fileBuffer = [] then 0 else 1) < streamFuel node := by
    simp only [streamFuel, hs, Option.getD_some]
    split <;> omega
  have hsome : node.streamCallback.isSome = true := by rw [hs]; rfl
  have hspec : Post _ (StreamSent True c node) _ := streamLoop_spec hs hstaged hfuel
  have hkept : Post (fun _ => True) (fun r => StreamKept node r.2)
      (streamLoop (streamFuel node) c node) := streamLoop_kept hsome
  have hmoves := fun hpos ht => streamLoop_moves (c := c) hs hpos hfuel ht
  cases hx : streamLoop (streamFuel node) c node with
  | error f =>
      rw [hx] at hspec
      exact hspec
  | ok r =>
      rw [hx] at hspec hkept hmoves
      exact ⟨hspec.1, hkept.1, Bool.noConfusion, hspec.2, hkept.2, fun ht hpos => hmoves hpos ht⟩

/-- What the vector is like when `sendFileInLoop` is to run on a node: it has
what is left of the stream, or room to read a file. -/
def Fits (streams allocated : Bool) (c : Conn) (node : BufferNode) : Prop :=
  if streams then (c.fileBuffer ≠ [] → node.Streaming) ∧ (allocated = false → c.fileBuffer = [])
  else allocated = true → c.fileBuffer ≠ []

theorem sendFileInLoopPortable_spec {streams allocated : Bool} (hok : node.Ok True)
    (hf : node.isFile = true) (hkind : node.streamCallback.isSome = streams)
    (hfits : Fits streams allocated c node) :
    Post (fun _ => False) (Ran streams c node) (c.sendFileInLoopPortable allocated node) := by
  unfold sendFileInLoopPortable
  rcases hok.cases with ⟨chunks, hs⟩ | ⟨file, hs, hfd, hr⟩ | ⟨b, hs, hfd, -, -⟩
  · obtain rfl : true = streams := by rw [← hkind, hs]; rfl
    obtain ⟨hstaged, hfresh⟩ : (c.fileBuffer ≠ [] → node.Streaming) ∧
      (allocated = false → c.fileBuffer = []) := hfits
    have hsame : (if allocated then c else { c with fileBuffer := [] }) = c := by
      split
      next => rfl
      next h => rw [← hfresh (Bool.eq_false_iff.mpr h)]
    simp only [hs]
    rw [hsame]
    exact ran_stream hs fun hne => (hstaged hne).2
  · obtain rfl : false = streams := by rw [← hkind, hs]; rfl
    have hroom : allocated = true → c.fileBuffer ≠ [] := hfits
    simp only [hs, hfd]
    cases allocated with
    | true => exact fileLoop_spec hs hfd (hr trivial) (hroom rfl) (Nat.lt_succ_self _)
    | false =>
        have hne : List.replicate kFileBuffer (0 : Byte) ≠ [] :=
          List.ne_nil_of_length_pos (by rw [List.length_replicate]; decide)
        refine Post.mono (fileLoop_spec hs hfd (hr trivial) hne (Nat.lt_succ_self _))
          (fun _ h => h) ?_
        exact fun r h => ⟨h.sent, h.kind, h.vector, h.writing, h.left, h.moves⟩
  · simp [BufferNode.isFile, hs, hfd] at hf

end Conn

/-! ## The invariant -/

/-- `P` has been asked for so far, all of it in files or all of it in
streams. -/
structure PortInv (streams : Bool) (s : Portable) (P : List Byte) : Prop where
  flow : Flow True (s.conn.view streams) P
  kind : ∀ node ∈ s.conn.writeBufferList,
    node.isFile = true ∧ node.streamCallback.isSome = streams
  room : streams = false → s.allocated = true → s.conn.fileBuffer ≠ []
  fresh : s.allocated = false → s.conn.writeBufferList = []
  writing : s.conn.writeBufferList ≠ [] → s.conn.channel.isWriting = true
  frames : ∀ f ∈ s.conn.frames, f = .callback ∨ f = .handleWriteRest

/-- What is left to do: bytes to send, nodes to finish and to pop, frames to
return from. -/
def workLeft (P : List Byte) (c : Conn) : Nat :=
  (P.length - c.sent.length) + 3 * c.writeBufferList.length +
    c.writeBufferList.countP (fun node => 0 < node.fileBytesToSend) + c.frames.length

theorem workLeft_pop {c : Conn} {node : BufferNode} {rest : List BufferNode}
    (hl : c.writeBufferList = node :: rest) (P : List Byte) :
    workLeft P { c with writeBufferList := rest } + 3 ≤ workLeft P c := by
  have hsent : ({ c with writeBufferList := rest } : Conn).sent = c.sent := rfl
  simp only [workLeft, hl, hsent, List.length_cons, List.countP_cons]
  omega

theorem workLeft_invoke (P : List Byte) (c : Conn) (f : Frame) (isSet : Bool) :
    workLeft P ((c.push f).invoke isSet .writeComplete) ≤ workLeft P c + 2 := by
  cases isSet with
  | false => exact Nat.le_succ (workLeft P (c.push f))
  | true =>
      have hsent : (((c.push f).log .writeComplete).push .callback).sent = c.sent := by
        simp [Conn.sent, Conn.push, Conn.log, sentOf]
      simp only [workLeft, Conn.invoke, if_true, hsent]
      exact Nat.le_refl _

section front

variable {c c' : Conn} {node node' : BufferNode} {rest : List BufferNode} {P : List Byte}

theorem workLeft_front (hl : c.writeBufferList = node :: rest)
    (hl' : c'.writeBufferList = node' :: rest) (hf : c'.frames = c.frames)
    (hsent : c.sent.length ≤ c'.sent.length)
    (hle : node'.fileBytesToSend ≤ node.fileBytesToSend) : workLeft P c' ≤ workLeft P c := by
  simp only [workLeft, hl, hl', hf, List.length_cons, List.countP_cons, decide_eq_true_eq]
  split <;> split <;> omega

theorem workLeft_front_lt (hl : c.writeBufferList = node :: rest)
    (hl' : c'.writeBufferList = node' :: rest) (hf : c'.frames = c.frames)
    (hsent : c.sent.length ≤ c'.sent.length)
    (hle : node'.fileBytesToSend ≤ node.fileBytesToSend) (hP : c'.sent.length ≤ P.length)
    (hmoves : c.sent.length < c'.sent.length ∨
      0 < node.fileBytesToSend ∧ node'.fileBytesToSend = 0) : workLeft P c' < workLeft P c := by
  simp only [workLeft, hl, hl', hf, List.length_cons, List.countP_cons, decide_eq_true_eq]
  split <;> split <;> omega

end front

/-- A run of `sendFileInLoop` on the front node, as the callers see it. -/
structure Advanced (c : Conn) (node : BufferNode) (rest : List BufferNode) (c' : Conn) : Prop where
  frames : c'.frames = c.frames
  sent : c.sent.length ≤ c'.sent.length
  list : ∃ node', c'.writeBufferList = node' :: rest ∧
    node'.fileBytesToSend ≤ node.fileBytesToSend ∧
    (c.TakesSome → 0 < node.fileBytesToSend →
      c.sent.length < c'.sent.length ∨ node'.fileBytesToSend = 0)

theorem Advanced.workLeft_le {c c' : Conn} {node : BufferNode} {rest : List BufferNode}
    (h : Advanced c node rest c') (hl : c.writeBufferList = node :: rest) (P : List Byte) :
    workLeft P c' ≤ workLeft P c := by
  obtain ⟨node', hl', hle, -⟩ := h.list
  exact workLeft_front hl hl' h.frames h.sent hle

theorem Advanced.workLeft_lt {c c' : Conn} {node : BufferNode} {rest : List BufferNode}
    (h : Advanced c node rest c') (hl : c.writeBufferList = node :: rest) {P : List Byte}
    (hP : c'.sent.length ≤ P.length) (ht : c.TakesSome) (hpos : 0 < node.fileBytesToSend) :
    workLeft P c' < workLeft P c := by
  obtain ⟨node', hl', hle, hmoves⟩ := h.list
  exact workLeft_front_lt hl hl' h.frames h.sent hle hP
    ((hmoves ht hpos).imp_right fun h0 => ⟨hpos, h0⟩)

namespace Conn

variable {c c' : Conn} {streams allocated : Bool} {P : List Byte} {node : BufferNode}
  {rest : List BufferNode}

theorem view_invoke (isSet : Bool) (e : Event) :
    (c.invoke isSet e).view streams = (c.view streams).invoke isSet e := by
  unfold invoke
  split <;> rfl

theorem runPortable_spec (hflow : Flow True (c.view streams) P)
    (hl : c.writeBufferList = node :: rest)
    (hkind : ∀ n ∈ c.writeBufferList, n.isFile = true ∧ n.streamCallback.isSome = streams)
    (hfits : Fits streams allocated c node)
    (hframes : ∀ f ∈ c.frames, f = .callback ∨ f = .handleWriteRest) (hnf : c.NonFatal) :
    Post (fun _ => False)
      (fun r => PortInv streams (Portable.ofPair r) P ∧ Advanced c node rest r.1)
      (c.runPortable allocated node rest) := by
  have hmem : node ∈ c.writeBufferList := by rw [hl]; exact List.mem_cons_self
  obtain ⟨hfile, hsome⟩ := hkind node hmem
  have hok : node.Ok True := hflow.nodes node hmem
  refine Post.bind (sendFileInLoopPortable_spec hok hfile hsome hfits) fun r hr => ?_
  have hem := hr.sent.emits
  have hfr : r.1.frames = c.frames := by
    obtain ⟨ch, fb, total, env, evs, heq, -, -⟩ := hem
    have := congrArg Conn.frames heq
    exact this
  refine ⟨⟨hflow.fileSent hl hr.sent, ?_, fun hst _ => hr.vector hst, nofun,
    fun _ => hr.writing hnf, ?_⟩, ⟨hfr, hr.sent_le, r.2, rfl, hr.left, hr.moves⟩⟩
  · intro n hn
    rcases List.mem_cons.mp hn with rfl | hn
    · exact ⟨hr.sent.isFile, hr.kind⟩
    · exact hkind n (by rw [hl]; exact List.mem_cons_of_mem _ hn)
  · intro f hf
    exact hframes f (by rw [← hfr]; exact hf)

end Conn

namespace PortInv

variable {streams : Bool} {s : Portable} {P : List Byte} {node : BufferNode}
  {rest : List BufferNode}

theorem sent_le (h : PortInv streams s P) : s.conn.sent.length ≤ P.length := by
  have hc := congrArg List.length h.flow.conserved
  rw [List.length_append] at hc
  have hle := Nat.le.intro hc
  exact hle

theorem withEnv (h : PortInv streams s P) (env : Env) : PortInv streams (s.withEnv env) P :=
  ⟨h.flow.congr rfl rfl rfl rfl, h.kind, h.room, h.fresh, h.writing, h.frames⟩

theorem extendLife (h : PortInv streams s P) :
    PortInv streams { s with conn := s.conn.extendLife } P ∧
      workLeft P s.conn.extendLife = workLeft P s.conn := by
  obtain ⟨t, evs, heq, hevs⟩ := s.conn.extendLife_eq
  have hnil : sentOf evs = [] := sentOf_eq_nil fun e he xs => by
    rw [hevs e he]
    exact Event.noConfusion
  have hsent : sentOf (s.conn.trace ++ evs) = sentOf s.conn.trace := by
    rw [sentOf_append, hnil, List.append_nil]
  rw [heq]
  refine ⟨⟨h.flow.congr rfl rfl rfl hsent, h.kind, h.room, h.fresh, h.writing, h.frames⟩, ?_⟩
  unfold workLeft Conn.sent
  rw [hsent]

theorem fits_next (h : PortInv streams s P) {c : Conn} (hc : c.fileBuffer = s.conn.fileBuffer)
    (hview : (s.conn.view streams).fileBuffer = []) (node : BufferNode) :
    Conn.Fits streams s.allocated c node := by
  cases streams with
  | true =>
      have hnil : s.conn.fileBuffer = [] := hview
      exact ⟨fun hne => absurd (hc.trans hnil) hne, fun _ => hc.trans hnil⟩
  | false =>
      intro ha
      rw [hc]
      exact h.room rfl ha

theorem fits_front (h : PortInv streams s P) (hl : s.conn.writeBufferList = node :: rest) :
    Conn.Fits streams s.allocated s.conn node := by
  have halloc : s.allocated = true := by
    by_contra hne
    rw [h.fresh (Bool.eq_false_iff.mpr hne)] at hl
    cases hl
  cases streams with
  | true => exact ⟨h.flow.staged_front hl, fun ha => by rw [halloc] at ha; cases ha⟩
  | false => exact h.room rfl

theorem view_done (h : PortInv streams s P) (hl : s.conn.writeBufferList = node :: rest)
    (hdone : node.fileBytesToSend = 0) : (s.conn.view streams).fileBuffer = [] :=
  h.flow.fileBuffer_nil_of_front hl fun hst => by
    have hpos := hst.2
    omega

theorem pending_done (h : PortInv streams s P) (hl : s.conn.writeBufferList = node :: rest)
    (hdone : node.fileBytesToSend = 0) : node.pending = [] := by
  have hmem : node ∈ s.conn.writeBufferList := by rw [hl]; exact List.mem_cons_self
  exact (h.flow.nodes node hmem).pending_done (h.kind node hmem).1 hdone

theorem frames_push_invoke (h : PortInv streams s P) {c : Conn} (hc : c.frames = s.conn.frames)
    (isSet : Bool) (e : Event) :
    ∀ f ∈ ((c.push .handleWriteRest).invoke isSet e).frames,
      f = .callback ∨ f = .handleWriteRest := by
  have hrest : ∀ f ∈ (c.push .handleWriteRest).frames, f = .callback ∨ f = .handleWriteRest := by
    intro f hf
    rcases List.mem_cons.mp hf with rfl | hf
    · exact Or.inr rfl
    · exact h.frames f (hc ▸ hf)
  intro f hf
  unfold Conn.invoke at hf
  split at hf
  · rcases List.mem_cons.mp hf with rfl | hf
    · exact Or.inl rfl
    · exact hrest f hf
  · exact hrest f hf

theorem popLast (h : PortInv streams s P) (hl : s.conn.writeBufferList = [node])
    (hdone : node.fileBytesToSend = 0) :
    PortInv streams { s with
      conn := ({ s.conn with
        writeBufferList := []
        channel := s.conn.channel.disableWriting }.push .handleWriteRest).invoke
          s.conn.callbacks.writeComplete .writeComplete } P := by
  have hpop : Flow True { s.conn.view streams with
      writeBufferList := [], channel := s.conn.channel.disableWriting } P :=
    h.flow.pop hl (h.pending_done hl hdone) (h.view_done hl hdone) (by simp)
  have hflow := (hpop.push .handleWriteRest).invoke s.conn.callbacks.writeComplete
    (e := .writeComplete) (by simp)
  refine ⟨by rw [Conn.view_invoke]; exact hflow, ?_, ?_, ?_, ?_,
    h.frames_push_invoke (by rfl) _ _⟩
  · rw [Conn.invoke_list]
    exact fun n hn => absurd hn List.not_mem_nil
  · rw [Conn.invoke_fileBuffer]
    exact h.room
  · rw [Conn.invoke_list]
    exact fun _ => rfl
  · rw [Conn.invoke_list]
    exact fun hne => absurd rfl hne

theorem popFront (h : PortInv streams s P) (hl : s.conn.writeBufferList = node :: rest)
    (hdone : node.fileBytesToSend = 0) (hnf : s.conn.NonFatal) :
    Post (fun _ => False)
      (fun r => PortInv streams (Portable.ofPair r) P ∧ workLeft P r.1 < workLeft P s.conn)
      (s.conn.popFrontWith Conn.runPortable s.allocated rest) := by
  have hpopped := workLeft_pop hl P
  unfold Conn.popFrontWith
  cases rest with
  | nil =>
      simp only [if_true, post_ok, Portable.ofPair]
      refine ⟨h.popLast hl hdone, ?_⟩
      exact (workLeft_invoke P _ _ _).trans_lt ((Nat.lt_succ_self _).trans_le hpopped)
  | cons next rest =>
      have hkind : ∀ n ∈ next :: rest, n.isFile = true ∧ n.streamCallback.isSome = streams :=
        fun n hn => h.kind n (by rw [hl]; exact List.mem_cons_of_mem _ hn)
      have hview := h.view_done hl hdone
      have hflow : Flow True ({ s.conn with writeBufferList := next :: rest }.view streams) P :=
        h.flow.pop hl (h.pending_done hl hdone) hview fun _ => List.cons_ne_nil _ _
      have hrun := Conn.runPortable_spec hflow rfl hkind
        (h.fits_next (c := { s.conn with writeBufferList := next :: rest }) rfl hview next)
        h.frames hnf
      simp only [reduceCtorEq, if_false, Conn.sendNextWith, (hkind next List.mem_cons_self).1,
        if_true]
      refine hrun.mono (fun _ hf => hf) fun r hr => ⟨hr.1, ?_⟩
      exact (hr.2.workLeft_le rfl P).trans_lt
        ((Nat.lt_add_of_pos_right (by decide)).trans_le hpopped)

theorem writable (h : PortInv streams s P) (hnf : s.conn.NonFatal) :
    Post (fun _ => False)
      (fun s' => PortInv streams s' P ∧
        (s.conn.writeBufferList = [] →
          s'.conn.writeBufferList = [] ∧ s'.conn.frames = s.conn.frames) ∧
        (s.conn.writeBufferList ≠ [] → s.conn.TakesSome →
          workLeft P s'.conn < workLeft P s.conn))
      (s.exec .writable) := by
  obtain ⟨hx, hwork⟩ := h.extendLife
  obtain ⟨t, evs, heq, -⟩ := s.conn.extendLife_eq
  have hlist : s.conn.extendLife.writeBufferList = s.conn.writeBufferList := by rw [heq]
  have hframes : s.conn.extendLife.frames = s.conn.frames := by rw [heq]
  have henv : s.conn.extendLife.env = s.conn.env := by rw [heq]
  rw [← hlist, ← hframes, ← hwork]
  have hnf₁ : s.conn.extendLife.NonFatal := by unfold Conn.NonFatal; rw [henv]; exact hnf
  have htakes : s.conn.TakesSome → s.conn.extendLife.TakesSome := by
    unfold Conn.TakesSome
    rw [henv]
    exact id
  unfold Portable.exec Conn.handleWriteWith
  generalize s.conn.extendLife = c at *
  simp only
  by_cases hw : c.channel.isWriting = true
  · simp only [hw, Bool.not_true, Bool.false_eq_true, if_false]
    cases hl : c.writeBufferList with
    | nil => exact absurd hl (hx.flow.writing hw)
    | cons node rest =>
        have hfile := (hx.kind node (by rw [hl]; exact List.mem_cons_self)).1
        simp only [hfile, if_true]
        by_cases hdone : node.fileBytesToSend ≤ 0
        · rw [if_pos hdone]
          refine (hx.popFront hl (by omega) hnf₁).bind fun r hr => ⟨hr.1, nofun, fun _ _ => hr.2⟩
        · rw [if_neg hdone]
          refine (Conn.runPortable_spec hx.flow hl hx.kind (hx.fits_front hl) hx.frames hnf₁).bind
            fun r hr => ⟨hr.1, nofun, fun _ ht => ?_⟩
          exact hr.2.workLeft_lt hl hr.1.sent_le (htakes ht) (by omega)
  · have hnil : c.writeBufferList = [] := by
      by_contra hne
      exact hw (hx.writing hne)
    simp only [hw, Bool.not_false, if_true]
    exact ⟨hx, fun _ => ⟨hnil, rfl⟩, fun hne => absurd hnil hne⟩

theorem log (h : PortInv streams s P) {e : Event} (he : ∀ xs, e ≠ .sent xs) :
    PortInv streams { s with conn := s.conn.log e } P ∧
      workLeft P (s.conn.log e) = workLeft P s.conn := by
  have hsent : (s.conn.log e).sent = s.conn.sent := by
    unfold Conn.sent Conn.log
    rw [sentOf_append, sentOf_eq_nil (t := [e]), List.append_nil]
    intro e' he'
    rw [List.mem_singleton.mp he']
    exact he
  refine ⟨⟨h.flow.congr rfl rfl rfl hsent, h.kind, h.room, h.fresh, h.writing, h.frames⟩, ?_⟩
  unfold workLeft
  rw [hsent]
  rfl

theorem resume (h : PortInv streams s P) (hne : s.conn.frames ≠ []) :
    Post (fun _ => False)
      (fun s' => PortInv streams s' P ∧ workLeft P s'.conn < workLeft P s.conn)
      (s.exec .resume) := by
  cases hf : s.conn.frames with
  | nil => exact absurd hf hne
  | cons f fs =>
      have hpop : PortInv streams { s with conn := { s.conn with frames := fs } } P :=
        ⟨h.flow.congr rfl rfl rfl rfl, h.kind, h.room, h.fresh, h.writing,
          fun g hg => h.frames g (by rw [hf]; exact List.mem_cons_of_mem _ hg)⟩
      have hwork : workLeft P { s.conn with frames := fs } < workLeft P s.conn := by
        have hsent : ({ s.conn with frames := fs } : Conn).sent = s.conn.sent := rfl
        simp only [workLeft, hf, hsent, List.length_cons]
        omega
      simp only [Portable.exec, hf]
      rcases h.frames f (by rw [hf]; exact List.mem_cons_self) with rfl | rfl
      · exact ⟨hpop, hwork⟩
      · simp only [Conn.resume, Conn.handleWriteRest, ok_bind, post_pure]
        split
        · obtain ⟨hlog, hsame⟩ := hpop.log (e := .closeWrite) (by simp)
          exact ⟨hlog, hsame.trans_lt hwork⟩
        · exact ⟨hpop, hwork⟩

theorem pushNode (h : PortInv streams s P) (hok : node.Ok True) (hfile : node.isFile = true)
    (hkind : node.streamCallback.isSome = streams) (hnf : s.conn.NonFatal) :
    Post (fun _ => False) (fun r => PortInv streams (Portable.ofPair r) (P ++ node.pending))
      (s.conn.pushNodeWith Conn.runPortable s.allocated node) := by
  have happ : Flow True ({ s.conn with
      writeBufferList := s.conn.writeBufferList ++ [node] }.view streams) (P ++ node.pending) :=
    h.flow.append hok
  have hkinds : ∀ n ∈ s.conn.writeBufferList ++ [node],
      n.isFile = true ∧ n.streamCallback.isSome = streams := by
    intro n hn
    rcases List.mem_append.mp hn with hn | hn
    · exact h.kind n hn
    · rw [List.mem_singleton.mp hn]
      exact ⟨hfile, hkind⟩
  unfold Conn.pushNodeWith
  cases hl : s.conn.writeBufferList with
  | nil =>
      have hview := (h.flow.pending_nil hl).1
      rw [hl, List.nil_append] at happ hkinds
      have hrun := Conn.runPortable_spec happ rfl hkinds
        (h.fits_next (c := { s.conn with writeBufferList := [node] }) rfl hview node) h.frames hnf
      simp only [List.nil_append]
      exact hrun.mono (fun _ hf => hf) fun r hr => hr.1
  | cons front rest =>
      have hne : s.conn.writeBufferList ≠ [] := by rw [hl]; exact List.cons_ne_nil _ _
      rw [hl] at happ hkinds
      simp only [List.cons_append]
      cases hr : rest ++ [node] with
      | nil => simp at hr
      | cons next more =>
          rw [List.cons_append, hr] at happ hkinds
          refine ⟨happ, hkinds, h.room, fun ha => absurd (h.fresh ha) hne, fun _ => h.writing hne,
            h.frames⟩

theorem sendFile (h : PortInv false s P) {file : List Byte} {offset length : Nat}
    (hrange : (PortAct.sendFile file offset length).InRange) (hnf : s.conn.NonFatal) :
    Post (fun _ => False)
      (fun s' => PortInv false s' (P ++ (PortAct.sendFile file offset length).payload))
      (s.exec (.sendFile file offset length)) := by
  obtain ⟨hpos, hle⟩ := hrange
  obtain ⟨hlog, -⟩ := h.log (e := .accept (slice file offset (offset + fileLength file length)))
    (by simp)
  unfold Portable.exec Conn.sendFileWith
  simp only [gt_iff_lt, hpos, if_true]
  exact (hlog.pushNode (Conn.ok_file rfl rfl fun _ => hle) rfl rfl hnf).bind fun r hr => hr

theorem sendStream (h : PortInv true s P) (chunks : List Chunk) (hnf : s.conn.NonFatal) :
    Post (fun _ => False)
      (fun s' => PortInv true s' (P ++ (PortAct.sendStream chunks).payload))
      (s.exec (.sendStream chunks)) := by
  obtain ⟨hlog, -⟩ := h.log (e := .accept (streamPayload chunks)) (by simp)
  unfold Portable.exec Conn.sendStreamWith
  exact (hlog.pushNode (Conn.ok_stream rfl) rfl rfl hnf).bind fun r hr => hr

theorem established (streams : Bool) (rb : MessageBuffer) (cbs : Callbacks) (env : Env) :
    PortInv streams (Portable.established rb cbs env) [] := by
  have hflow := (Sending.established rb cbs env).flow
  have hl : (Conn.established rb cbs env).writeBufferList = [] := by
    simp [Conn.established, Conn.setStatus, Conn.log, Conn.new]
  have hfb := (hflow.pending_nil hl).1
  refine ⟨hflow.congr rfl ?_ rfl rfl, ?_, fun _ ha => (by cases ha), fun _ => hl,
    fun hne => absurd hl hne, ?_⟩
  · show (if streams then (Conn.established rb cbs env).fileBuffer else []) = _
    rw [hfb, ite_self]
  · show ∀ node ∈ (Conn.established rb cbs env).writeBufferList, _
    rw [hl]
    exact fun n hn => absurd hn List.not_mem_nil
  · intro f hf
    simp only [Portable.established, Conn.established, Conn.invoke] at hf
    split at hf
    · exact Or.inl (List.mem_singleton.mp hf)
    · exact absurd hf List.not_mem_nil

theorem exec (h : PortInv streams s P) {a : PortAct} (hkind : a.OfKind streams)
    (hrange : a.InRange) (hen : s.Enabled a) (hnf : s.conn.NonFatal) :
    Post (fun _ => False) (fun s' => PortInv streams s' (P ++ a.payload)) (s.exec a) := by
  have hsame : ∀ {s' : Portable}, PortInv streams s' P → PortInv streams s' (P ++ []) := by
    intro s' hs'
    rwa [List.append_nil]
  cases a with
  | sendFile file offset length =>
      obtain rfl : streams = false := hkind
      exact h.sendFile hrange hnf
  | sendStream chunks =>
      obtain rfl : streams = true := hkind
      exact h.sendStream chunks hnf
  | writable => exact (h.writable hnf).mono (fun _ hf => hf) fun s' hs' => hsame hs'.1
  | resume => exact (h.resume hen).mono (fun _ hf => hf) fun s' hs' => hsame hs'.1

theorem step {s' : Portable} {l : PortLabel} (h : PortInv streams s P)
    (hkind : l.act.OfKind streams) (hstep : PortStep s l s') :
    PortInv streams s' (P ++ l.act.payload) := by
  obtain ⟨hen, hrange, hnf, hx⟩ := hstep
  exact ((h.withEnv l.env).exec hkind hrange hen hnf).of_ok hx

theorem run {s' : Portable} {ls : List PortLabel} (h : PortInv streams s P)
    (hkind : ∀ l ∈ ls, l.act.OfKind streams) (hrun : Run PortStep s ls s') :
    PortInv streams s' (P ++ ls.flatMap fun l => l.act.payload) := by
  induction hrun with
  | nil => simpa using h
  | @snoc _ _ ls l _ hs ih =>
      have hinit := ih fun m hm => hkind m (List.mem_append_left _ hm)
      have hlast := hinit.step (hkind l (by simp)) hs
      simpa using hlast

theorem pending_eq (h : PortInv streams s P) : s.pending = (s.conn.view streams).pending := by
  unfold Portable.pending Conn.pending
  cases hl : s.conn.writeBufferList with
  | nil =>
      rw [(h.flow.pending_nil hl).1, show (s.conn.view streams).writeBufferList = [] from hl]
      rfl
  | cons node rest =>
      have hkind := (h.kind node (by rw [hl]; exact List.mem_cons_self)).2
      rw [show (s.conn.view streams).writeBufferList = node :: rest from hl]
      simp only [List.head?_cons, Option.any_some, hkind]
      rfl

theorem workLeft_zero (h : PortInv streams s P) (hl : s.conn.writeBufferList = [])
    (hf : s.conn.frames = []) : workLeft P s.conn = 0 := by
  have hsent : s.conn.sent = P := (h.flow.pending_nil hl).2
  simp [workLeft, hl, hf, hsent]

theorem turn (h : PortInv streams s P) {env : Env} (hroom : env.HasRoom) :
    Post (fun _ => False)
      (fun s' => PortInv streams s' P ∧
        (workLeft P s'.conn < workLeft P s.conn ∨ workLeft P s'.conn = 0))
      ((s.withEnv env).exec (if s.conn.frames = [] then .writable else .resume)) := by
  obtain ⟨htakes, hnf⟩ := hroom
  have henv := h.withEnv env
  by_cases hf : s.conn.frames = []
  · rw [if_pos hf]
    refine (henv.writable hnf).mono (fun _ hf => hf) fun s' ⟨hs', hidle, hmoves⟩ => ⟨hs', ?_⟩
    by_cases hl : s.conn.writeBufferList = []
    · obtain ⟨hl', hf'⟩ := hidle hl
      exact Or.inr (hs'.workLeft_zero hl' (hf'.trans hf))
    · exact Or.inl (hmoves hl htakes)
  · rw [if_neg hf]
    exact (henv.resume hf).mono (fun _ hf => hf) fun s' hs' => ⟨hs'.1, Or.inl hs'.2⟩

/-- With room for a byte whenever it is writable, everything is sent. -/
theorem drains (h : PortInv streams s P) {envs : List Env} (hroom : ∀ e ∈ envs, e.HasRoom)
    (hle : workLeft P s.conn ≤ envs.length) :
    ∃ t, s.drive envs = .ok t ∧ t.conn.writeBufferList = [] ∧ t.conn.sent = P := by
  induction envs generalizing s with
  | nil =>
      have hl : s.conn.writeBufferList = [] := by
        rw [← List.length_eq_zero_iff]
        simp only [workLeft, List.length_nil] at hle
        omega
      exact ⟨s, rfl, hl, (h.flow.pending_nil hl).2⟩
  | cons e es ih =>
      obtain ⟨hroom, hrooms⟩ := List.forall_mem_cons.mp hroom
      have hturn := h.turn hroom
      rw [List.length_cons] at hle
      cases hx : (s.withEnv e).exec (if s.conn.frames = [] then .writable else .resume) with
      | error f =>
          rw [hx] at hturn
          exact hturn.elim
      | ok s₁ =>
          rw [hx] at hturn
          obtain ⟨hs₁, hless⟩ := hturn
          obtain ⟨t, ht, hdone⟩ := ih hs₁ hrooms (by omega)
          refine ⟨t, ?_, hdone⟩
          unfold Portable.drive at ht ⊢
          rw [List.foldlM_cons, hx]
          exact ht

end PortInv

/-! ## Files only, or streams only -/

/-- **The portable path sends what `sendfile` would.** In every run on a
connection that only sends files, or only streams, no step fails, and what
is sent and what is pending make up the payloads in the order of the calls.
If the socket keeps taking bytes, all nodes are completed, and the bytes
sent are those of any run of the Linux build with the same payloads. -/
theorem portable_delivers (rb : MessageBuffer) (cbs : Callbacks) (env : Env)
    {ls : List PortLabel} {s : Portable} (hkind : OneKind ls)
    (hrun : Run PortStep (Portable.established rb cbs env) ls s) :
    s.conn.sent ++ s.pending = (ls.flatMap fun l => l.act.payload) ∧
      (∀ l : PortLabel, OneKind (ls ++ [l]) → s.Enabled l.act → l.act.InRange →
        (∀ e, .failed e ∈ l.env.io → e = .wouldBlock) → ∃ s', PortStep s l s') ∧
      ∃ k, ∀ envs : List Env, k ≤ envs.length → (∀ e ∈ envs, e.HasRoom) →
        ∃ t, s.drive envs = .ok t ∧ t.conn.writeBufferList = [] ∧
          t.conn.sent = (ls.flatMap fun l => l.act.payload) ∧
          ∀ {ls' : List Label} {c : Conn},
            Run SendStep (Conn.established rb cbs env) ls' c → c.writeBufferList = [] →
            (ls'.flatMap fun l => l.act.payload) = (ls.flatMap fun l => l.act.payload) →
            t.conn.sent = c.sent := by
  obtain ⟨streams, hstreams⟩ := hkind
  have h := (PortInv.established streams rb cbs env).run hstreams hrun
  rw [List.nil_append] at h
  refine ⟨?_, ?_, workLeft (ls.flatMap fun l => l.act.payload) s.conn, ?_⟩
  · rw [h.pending_eq]
    exact h.flow.conserved
  · rintro l ⟨streams', hstreams'⟩ hen hrange hnf
    have h' := (PortInv.established streams' rb cbs env).run
      (fun m hm => hstreams' m (List.mem_append_left _ hm)) hrun
    have hpost := (h'.withEnv l.env).exec (hstreams' l (by simp)) hrange hen hnf
    cases hx : (s.withEnv l.env).exec l.act with
    | ok s' => exact ⟨s', hen, hrange, hnf, hx⟩
    | error f => exact (hpost.of_error hx).elim
  · intro envs hlen hroom
    obtain ⟨t, ht, hl, hsent⟩ := h.drains hroom hlen
    refine ⟨t, ht, hl, hsent, fun {ls' c} hrun' hl' hsame => ?_⟩
    have hlinux := (Sending.established rb cbs env).run hrun'
    rw [List.nil_append] at hlinux
    rw [hsent, ← hsame, (hlinux.flow.pending_nil hl').2]

/-- Two files. The socket takes the first byte, one more when it is writable
again, and then nothing. -/
def twoFiles : List PortLabel :=
  [⟨.sendFile [1, 2, 3] 0 0, answering [.count 1]⟩, ⟨.sendFile [9, 4, 5] 1 2, answering []⟩,
    ⟨.writable, answering [.count 1]⟩]

theorem portable_delivers_twoFiles : ∃ s,
    Run PortStep (Portable.established .blank plainCallbacks (answering [])) twoFiles s ∧
      s.conn.sent = [1, 2] ∧ s.conn.sent ++ s.pending = [1, 2, 3, 4, 5] ∧
      ∃ k, ∀ envs : List Env, k ≤ envs.length → (∀ e ∈ envs, e.HasRoom) →
        ∃ t, s.drive envs = .ok t ∧ t.conn.writeBufferList = [] ∧
          t.conn.sent = [1, 2, 3, 4, 5] := by
  have hkind : OneKind twoFiles := ⟨false, by simp [twoFiles, PortAct.OfKind]⟩
  obtain ⟨s, hrun, hsent⟩ := Portable.exists_run (fun s => decide (s.conn.sent = [1, 2]))
    (.established .blank plainCallbacks (answering [])) twoFiles (by decide +kernel)
  obtain ⟨hconserved, -, k, hk⟩ := portable_delivers _ _ _ hkind hrun
  refine ⟨s, hrun, of_decide_eq_true hsent, hconserved, k, fun envs hlen hroom => ?_⟩
  obtain ⟨t, ht, hl, hsent, -⟩ := hk envs hlen hroom
  exact ⟨t, ht, hl, hsent⟩

/-! ## One kind after the other -/

section mixed

variable {s : Portable} {P : List Byte}

theorem pushNode_staged {node : BufferNode} {chunks : List Chunk}
    (hl : s.conn.writeBufferList = []) (ha : s.allocated = true)
    (hs : node.streamCallback = some chunks) (hpos : 0 < node.fileBytesToSend) :
    Post (fun _ => False)
      (fun r => (Portable.ofPair r).conn.sent ++ (Portable.ofPair r).pending =
        s.conn.sent ++ (s.conn.fileBuffer ++ streamPayload chunks))
      (s.conn.pushNodeWith Conn.runPortable s.allocated node) := by
  unfold Conn.pushNodeWith Conn.runPortable Conn.sendFileInLoopPortable
  simp only [hl, List.nil_append, ha, hs, if_true]
  refine Post.bind (Conn.ran_stream hs fun _ => hpos) fun r hr => ?_
  have hflow : r.1.sent ++ (r.1.fileBuffer ++ r.2.pending) =
      s.conn.sent ++ (s.conn.fileBuffer ++ node.pending) := hr.sent.flow
  rw [Conn.pending_stream hs hpos] at hflow
  simp only [post_pure, Portable.ofPair, Portable.pending, List.head?_cons, Option.any_some,
    hr.kind, if_true, List.flatMap_singleton]
  exact hflow

/-- After a file the vector is full of old bytes, which a stream then sends
first. -/
theorem stream_after_file (h : PortInv false s P) (hl : s.conn.writeBufferList = [])
    (ha : s.allocated = true) (chunks : List Chunk) :
    Post (fun _ => False)
      (fun s' => s'.conn.sent ++ s'.pending = P ++ (s.conn.fileBuffer ++ streamPayload chunks))
      (s.exec (.sendStream chunks)) := by
  obtain ⟨hlog, -⟩ := h.log (e := .accept (streamPayload chunks)) (by simp)
  have hsent : (s.conn.log (.accept (streamPayload chunks))).sent = P :=
    (hlog.flow.pending_nil hl).2
  unfold Portable.exec Conn.sendStreamWith
  refine Post.bind (pushNode_staged (s := { s with
    conn := s.conn.log (.accept (streamPayload chunks)) }) hl ha rfl Nat.one_pos) fun r hr => ?_
  rw [hsent] at hr
  exact hr

/-- After a stream the vector is empty, and of a file that is started
nothing is read. -/
theorem file_after_stream (h : PortInv true s P) (hl : s.conn.writeBufferList = [])
    (ha : s.allocated = true) {file : List Byte} {offset length : Nat}
    (hpos : 0 < fileLength file length) :
    Post (fun _ => False)
      (fun s' => s'.conn.sent = P ∧ s'.conn.writeBufferList ≠ [] ∧
        s'.conn.channel.isWriting = false ∧ s'.conn.frames = s.conn.frames)
      (s.exec (.sendFile file offset length)) := by
  obtain ⟨hlog, -⟩ := h.log (e := .accept (slice file offset (offset + fileLength file length)))
    (by simp)
  obtain ⟨hfb, hsent⟩ := hlog.flow.pending_nil hl
  have hw : s.conn.channel.isWriting = false := by
    rw [Bool.eq_false_iff]
    exact fun hw => h.flow.writing hw hl
  have hvector : s.conn.fileBuffer = [] := hfb
  unfold Portable.exec Conn.sendFileWith Conn.pushNodeWith Conn.runPortable
    Conn.sendFileInLoopPortable
  simp only [gt_iff_lt, hpos, if_true, Conn.log, hl, List.nil_append, ha, Conn.fileLoop,
    Conn.readFile, hvector, List.length_nil, Nat.zero_min, Nat.add_zero, slice_self, Nat.lt_irrefl,
    if_false]
  exact ⟨hsent, List.cons_ne_nil _ _, hw, rfl⟩

theorem turn_not_writing (hw : s.conn.channel.isWriting = false)
    (hframes : ∀ f ∈ s.conn.frames, f = .callback ∨ f = .handleWriteRest) (env : Env) :
    Post (fun _ => False)
      (fun s' => s'.conn.writeBufferList = s.conn.writeBufferList ∧
        s'.conn.channel.isWriting = false ∧
        ∀ f ∈ s'.conn.frames, f = .callback ∨ f = .handleWriteRest)
      ((s.withEnv env).exec (if s.conn.frames = [] then .writable else .resume)) := by
  cases hf : s.conn.frames with
  | nil =>
      obtain ⟨t, evs, heq, -⟩ := (s.withEnv env).conn.extendLife_eq
      have hwriting : (s.withEnv env).conn.channel.isWriting = false := hw
      simp only [if_true, Portable.exec, Conn.handleWriteWith, heq, hwriting, Bool.not_false,
        ok_bind]
      exact ⟨rfl, hw, hframes⟩
  | cons f fs =>
      have hfs : ∀ g ∈ fs, g = .callback ∨ g = .handleWriteRest :=
        fun g hg => hframes g (by rw [hf]; exact List.mem_cons_of_mem _ hg)
      have hcons : (s.withEnv env).conn.frames = f :: fs := hf
      simp only [reduceCtorEq, if_false, Portable.exec, hcons]
      rcases hframes f (by rw [hf]; exact List.mem_cons_self) with rfl | rfl
      · exact ⟨rfl, hw, hfs⟩
      · simp only [Conn.resume, Conn.handleWriteRest, ok_bind, post_pure]
        split <;> exact ⟨rfl, hw, hfs⟩

theorem drive_not_writing {envs : List Env} {t : Portable}
    (hw : s.conn.channel.isWriting = false)
    (hframes : ∀ f ∈ s.conn.frames, f = .callback ∨ f = .handleWriteRest)
    (hdrive : s.drive envs = .ok t) : t.conn.writeBufferList = s.conn.writeBufferList := by
  induction envs generalizing s with
  | nil =>
      cases hdrive
      rfl
  | cons e es ih =>
      have hturn := turn_not_writing hw hframes e
      unfold Portable.drive at hdrive
      rw [List.foldlM_cons] at hdrive
      cases hx : (s.withEnv e).exec (if s.conn.frames = [] then .writable else .resume) with
      | error f => exact (hturn.of_error hx).elim
      | ok s₁ =>
          obtain ⟨hlist, hw₁, hframes₁⟩ := hturn.of_ok hx
          rw [hx] at hdrive
          exact (ih hw₁ hframes₁ hdrive).trans hlist

end mixed

/-- An empty stream, and when it is done, a file of three bytes that the
socket has room for. -/
def streamThenFile : List PortLabel :=
  [⟨.sendStream [], answering []⟩, ⟨.writable, answering []⟩, ⟨.resume, answering []⟩,
    ⟨.sendFile [1, 2, 3] 0 0, answering [.count 3]⟩]

/-- Nothing of the file is ever sent, where `sendfile` sends it at once. -/
theorem portable_stuck :
    (∃ s, Run PortStep (Portable.established .blank plainCallbacks (answering [])) streamThenFile s ∧
      s.conn.sent = [] ∧
      ∀ envs t, s.drive envs = .ok t → t.conn.writeBufferList ≠ []) ∧
    ∃ c, Run SendStep (Conn.established .blank plainCallbacks (answering []))
      [⟨.call (.sendStream (some [])), answering []⟩, ⟨.event POLLOUT, answering []⟩,
        ⟨.resume, answering []⟩, ⟨.resume, answering []⟩, ⟨.resume, answering []⟩,
        ⟨.call (.sendFile (some [1, 2, 3]) 0 0), answering [.count 3]⟩] c ∧ c.sent = [1, 2, 3] := by
  have hio : ∀ e, .failed e ∈ (answering []).io → e = .wouldBlock := by simp [answering]
  have hio' : ∀ e, .failed e ∈ (answering [.count 3]).io → e = .wouldBlock := by simp [answering]
  constructor
  · refine ⟨_, .cons ⟨Or.inl rfl, trivial, hio, rfl⟩ (.cons ⟨rfl, trivial, hio, rfl⟩
      (.cons ⟨List.cons_ne_nil _ _, trivial, hio, rfl⟩
        (.cons ⟨Or.inl rfl, ⟨by decide, by decide⟩, hio', rfl⟩ (.nil _)))), rfl, ?_⟩
    intro envs t hdrive
    rw [drive_not_writing rfl (fun f hf => absurd hf List.not_mem_nil) hdrive]
    exact List.cons_ne_nil _ _
  · refine ⟨_, .cons ⟨⟨Or.inl rfl, rfl⟩, rfl, hio⟩ (.cons ⟨⟨rfl, rfl⟩, rfl, hio⟩
      (.cons ⟨⟨List.cons_ne_nil _ _, rfl⟩, trivial, hio⟩
        (.cons ⟨⟨List.cons_ne_nil _ _, rfl⟩, trivial, hio⟩
          (.cons ⟨⟨List.cons_ne_nil _ _, rfl⟩, trivial, hio⟩
            (.cons ⟨⟨Or.inl rfl, rfl⟩, ⟨by decide, by decide⟩, hio'⟩ (.nil _)))))), rfl⟩

end Netpoll
