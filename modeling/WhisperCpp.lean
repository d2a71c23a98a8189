import WhisperCpp.Fault
import WhisperCpp.Library.LeftmostGrammar
import WhisperCpp.Library.Fuel
import WhisperCpp.Library.Windows
import WhisperCpp.Library.Machine
import WhisperCpp.Grammar.Automaton
import WhisperCpp.Grammar.Denotation
import WhisperCpp.Grammar.Acceptance
import WhisperCpp.Grammar.Candidates
import WhisperCpp.Grammar.Safety
import WhisperCpp.GrammarParser.Parse
import WhisperCpp.GrammarParser.Syntax
import WhisperCpp.GrammarParser.Invariant
import WhisperCpp.GrammarParser.Soundness
import WhisperCpp.KvCache.Cache
import WhisperCpp.KvCache.Slots
import WhisperCpp.KvCache.Sequences
import WhisperCpp.Full.Context
import WhisperCpp.Full.Logits
import WhisperCpp.Full.Prompt
import WhisperCpp.Full.Decoding
import WhisperCpp.Full.Segments
import WhisperCpp.Full.Driver
import WhisperCpp.Full.Phases
import WhisperCpp.Full.English
import WhisperCpp.Full.History
import WhisperCpp.Full.Progress
import WhisperCpp.Library.Rounding
import WhisperCpp.Vad.Clock
import WhisperCpp.Library.Stretches
import WhisperCpp.Vad.Segments
import WhisperCpp.Vad.ScanInvariant
import WhisperCpp.Vad.Passes
import WhisperCpp.Vad.Filtered
import WhisperCpp.Library.SortUnique
import WhisperCpp.Vad.TimeMap
import WhisperCpp.Vad.Mapping
import WhisperCpp.Vad.Getters
import WhisperCpp.Parallel.Chunks
import WhisperCpp.Parallel.Merge
import WhisperCpp.Full.Peak
import WhisperCpp.Full.OneWindow
import WhisperCpp.Calls.Entry
import WhisperCpp.Calls.Stale
import WhisperCpp.Full.Wrap
import WhisperCpp.Full.Callbacks
import WhisperCpp.Full.Built
import WhisperCpp.Full.TokenRules
import WhisperCpp.Grammar.Utf8
import WhisperCpp.Library.FrameWalk
import WhisperCpp.Parakeet.Tdt
import WhisperCpp.Parakeet.TdtWindows
import WhisperCpp.Parakeet.Eou
import WhisperCpp.Parakeet.Stream
import WhisperCpp.Full.SlotRuns
import WhisperCpp.Vad.Streaming
import WhisperCpp.Full.Dtw
import WhisperCpp.Library.Reading
import WhisperCpp.Loader.Stream
import WhisperCpp.Loader.Weights
import WhisperCpp.Loader.Received
import WhisperCpp.Loader.Model
import WhisperCpp.Loader.Bounds
import WhisperCpp.Loader.Agreement
import WhisperCpp.Parakeet.Detokenize
import WhisperCpp.Parakeet.Session
import WhisperCpp.Parakeet.Feeds
import WhisperCpp.Parakeet.Rebuild
import WhisperCpp.Library.Changes
import WhisperCpp.Parakeet.EnergyVad
import WhisperCpp.Library.Lru
import WhisperCpp.Parakeet.EncoderGraphs
import WhisperCpp.Parakeet.SortformerSession
import WhisperCpp.Parakeet.SortformerWindows
import WhisperCpp.Parakeet.SortformerFinal
import WhisperCpp.Parakeet.SortformerCommit
import WhisperCpp.Library.Rows
import WhisperCpp.Parakeet.SpeakerCache
import WhisperCpp.Parakeet.SpeakerRows
import WhisperCpp.Parakeet.SpeakerRuns
import WhisperCpp.Chatterbox.KvLayout
import WhisperCpp.Chatterbox.StepCache
import WhisperCpp.Chatterbox.T3Bounds
import WhisperCpp.Chatterbox.ModelCache
import WhisperCpp.Chatterbox.S3gen
import WhisperCpp.Chatterbox.Streaming
import WhisperCpp.Chatterbox.OneChunk
import WhisperCpp.Library.KeyedSlot
import WhisperCpp.Chatterbox.SynthCaches
import WhisperCpp.Supertonic.GraphCaches
import WhisperCpp.Supertonic.AliveRegistry
import WhisperCpp.Library.StagedBuild
import WhisperCpp.Ggml.CachedBuild
import WhisperCpp.Chatterbox.CachedGraphs
import WhisperCpp.Supertonic.FailedBuilds
import WhisperCpp.KvCache.FindSlot
import WhisperCpp.Grammar.PartialClass
import WhisperCpp.Library.Cuts
import WhisperCpp.Full.WrapSegment
import WhisperCpp.Full.SpeechProb
import WhisperCpp.Vad.MaxSpeech
import WhisperCpp.Chatterbox.SplitText
import WhisperCpp.Chatterbox.LiveInput
import WhisperCpp.Chatterbox.Gpt2Bpe
import WhisperCpp.Chatterbox.Normalize
import WhisperCpp.Chatterbox.Json
import WhisperCpp.Chatterbox.MtlTokenizer
import WhisperCpp.Chatterbox.MtlSpecials
import WhisperCpp.Full.DtwPath
import WhisperCpp.Full.DtwPlacement
import WhisperCpp.Vad.Failures
import WhisperCpp.Parakeet.TdtBounds
import WhisperCpp.Library.Fourier
import WhisperCpp.Mel.Fft
import WhisperCpp.Library.Workers
import WhisperCpp.Mel.LogMel
import WhisperCpp.Mel.Padding
import WhisperCpp.Full.Tokenize
import WhisperCpp.Full.TokenTimes
import WhisperCpp.Full.TokenOrder
import WhisperCpp.Library.Collapse
import WhisperCpp.Parakeet.Ctc
import WhisperCpp.Library.Assignment
import WhisperCpp.Parakeet.SlotRemap
import WhisperCpp.Library.MaskRuns
import WhisperCpp.Parakeet.ThresholdSegments
import WhisperCpp.Library.RingWindow
import WhisperCpp.Parakeet.EnergyWindow
import WhisperCpp.Chatterbox.RepeatPenalty
import WhisperCpp.Chatterbox.T3Sampling
import WhisperCpp.Parakeet.StartLengths
import WhisperCpp.Chatterbox.SamplersSound
import WhisperCpp.Library.BitReversal
import WhisperCpp.Library.FastFourier
import WhisperCpp.Parakeet.Rfft
import WhisperCpp.Chatterbox.Utf8Segments
import WhisperCpp.Chatterbox.LiveReads
import WhisperCpp.Library.GreedySpans
import WhisperCpp.Library.StableSort
import WhisperCpp.Chatterbox.AddedTokens
import WhisperCpp.Chatterbox.ReferenceBpe
import WhisperCpp.Chatterbox.CanonicalOrder
import WhisperCpp.Chatterbox.PuncNorm
import WhisperCpp.Chatterbox.Npy
import WhisperCpp.Chatterbox.NpyCuts
import WhisperCpp.Chatterbox.Reference
import WhisperCpp.Supertonic.Preprocess
import WhisperCpp.Supertonic.CanonicalInput
import WhisperCpp.Library.Tighten
import WhisperCpp.Supertonic.CodePoints
import WhisperCpp.Library.Overlap
import WhisperCpp.Library.Spaces
import WhisperCpp.Supertonic.NormalForm
import WhisperCpp.Library.InPlace
import WhisperCpp.Supertonic.RandomState
import WhisperCpp.Chatterbox.Loudness
import WhisperCpp.Supertonic.Cancel
import WhisperCpp.Chatterbox.VoiceWindows
import WhisperCpp.Ggml.Values
import WhisperCpp.Supertonic.GraphOps
import WhisperCpp.Supertonic.Depthwise
import WhisperCpp.Supertonic.RelposAttention
import WhisperCpp.Chatterbox.Hift
import WhisperCpp.Supertonic.Lengths
import WhisperCpp.Chatterbox.JsonText
import WhisperCpp.Calls.VadHistory
import WhisperCpp.Chatterbox.UnicodeTables
import WhisperCpp.Full.Frame
import WhisperCpp.Full.WrapLimits
import WhisperCpp.Ggml.Tensor
import WhisperCpp.Library.Bpe
import WhisperCpp.Library.BpeRounds
import WhisperCpp.Library.DigitRuns
import WhisperCpp.Library.Literals
import WhisperCpp.Library.LruIndex
import WhisperCpp.Library.MarkedCuts
import WhisperCpp.Library.Matching
import WhisperCpp.Library.OneSided
import WhisperCpp.Library.OverlapAdd
import WhisperCpp.Library.Pieces
import WhisperCpp.Library.Ranks
import WhisperCpp.Library.Replace
import WhisperCpp.Library.Search
import WhisperCpp.Library.Squeeze
import WhisperCpp.Library.Strided
import WhisperCpp.Library.Traced
import WhisperCpp.Library.Utf8Cuts
import WhisperCpp.Library.Warping
import WhisperCpp.Loader.Vad
import WhisperCpp.Parakeet.FftInPlace
import WhisperCpp.Ggml.Gguf
import WhisperCpp.Ggml.GgufRoundTrip
import WhisperCpp.Library.Consumer
import WhisperCpp.Ggml.GgufReader
import WhisperCpp.Ggml.DynTallocr
import WhisperCpp.Library.Spans
import WhisperCpp.Ggml.Gallocr
import WhisperCpp.Ggml.GallocrRuns
import WhisperCpp.Ggml.GraphBuild
