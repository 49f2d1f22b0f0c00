import MineGPT.Lib.Machine
import MineGPT.Lib.Compaction
import MineGPT.Lib.Places
import MineGPT.Lib.Components
import MineGPT.Lib.PairMerge
import MineGPT.Lib.Chain
import MineGPT.Lib.MergeQueue
import MineGPT.Lib.TextSearch
import MineGPT.Lib.Streaming
import MineGPT.Lib.ByteString
import MineGPT.Lib.Reader
import MineGPT.Lib.Writer
import MineGPT.Lib.Memory
import MineGPT.Lib.Access
import MineGPT.Lib.RingSearch
import MineGPT.Lib.Utf8
import MineGPT.Lib.Utf8Forms
import MineGPT.Lib.Utf8Search
import MineGPT.Lib.ModifiedUtf8
import MineGPT.Chat.Template
import MineGPT.Chat.Render
import MineGPT.Chat.Delta
import MineGPT.Chat.Exchange
import MineGPT.Kv.Cache
import MineGPT.Kv.Decode
import MineGPT.Kv.Defrag
import MineGPT.Kv.Operations
import MineGPT.Kv.Entries
import MineGPT.Kv.Steps
import MineGPT.Kv.Lifetime
import MineGPT.Kv.DecodeRun
import MineGPT.Kv.State
import MineGPT.Kv.StateRead
import MineGPT.Kv.Restore
import MineGPT.Kv.Refuse
import MineGPT.Kv.Linear
import MineGPT.Kv.Rollback
import MineGPT.Native.Utf8Scan
import MineGPT.Native.Context
import MineGPT.Native.Inference
import MineGPT.Native.Turn
import MineGPT.Native.Session
import MineGPT.Native.Run
import MineGPT.Native.History
import MineGPT.Native.Isolation
import MineGPT.Native.Prompt
import MineGPT.Native.Feed
import MineGPT.Native.Admission
import MineGPT.Native.BatchBound
import MineGPT.Native.Bos
import MineGPT.Native.NoMemory
import MineGPT.Native.Jni
import MineGPT.Native.Utf8Stream
import MineGPT.Native.Utf8Accept
import MineGPT.Native.Utf8Bounds
import MineGPT.Native.Withheld
import MineGPT.Native.Harmless
import MineGPT.Native.JniText
import MineGPT.Native.Query
import MineGPT.Native.Offsets
import MineGPT.Native.Flow
import MineGPT.Native.SpmModel
import MineGPT.Ui.ViewModel
import MineGPT.Ui.Exclusive
import MineGPT.Ui.Generating
import MineGPT.Ui.Bubbles
import MineGPT.Ui.Typewriter
import MineGPT.Ui.Typing
import MineGPT.Ui.Stopping
import MineGPT.Ui.Handlers
import MineGPT.Ui.Loading
import MineGPT.Ui.LoadedOnce
import MineGPT.Gguf.Kv
import MineGPT.Gguf.Read
import MineGPT.Vocab.Tokens
import MineGPT.Vocab.Partition
import MineGPT.Vocab.Spm
import MineGPT.Vocab.Unicode
import MineGPT.Vocab.Split
import MineGPT.Vocab.Words
import MineGPT.Vocab.Bpe
import MineGPT.Vocab.BpeRead
import MineGPT.Vocab.Pieces
import MineGPT.Vocab.SpmRead
import MineGPT.Vocab.Tokenize
import MineGPT.Llm.Reader
import MineGPT.Llm.Talker
import MineGPT.Llm.Instances
