import NewsAggregator.Api.Dashboard
import NewsAggregator.Api.Feed
import NewsAggregator.Api.Sparkline
import NewsAggregator.Bus.Client
import NewsAggregator.Bus.Policy
import NewsAggregator.Classify.ModelStore
import NewsAggregator.Cluster.Aging
import NewsAggregator.Cluster.Choice
import NewsAggregator.Cluster.Claimx
import NewsAggregator.Cluster.Cluster
import NewsAggregator.Cluster.Consumer
import NewsAggregator.Cluster.Db
import NewsAggregator.Cluster.Handle
import NewsAggregator.Cluster.Incremental
import NewsAggregator.Cluster.Progress
import NewsAggregator.Cluster.Promotion
import NewsAggregator.Cluster.Replay
import NewsAggregator.Cluster.StoryRows
import NewsAggregator.Cluster.TrustRace
import NewsAggregator.Cluster.Visit
import NewsAggregator.Dedup.Simhash
import NewsAggregator.Dedup.Store
import NewsAggregator.Dedup.Window
import NewsAggregator.Enrich.Admission
import NewsAggregator.Enrich.Budget
import NewsAggregator.Enrich.Burst
import NewsAggregator.Enrich.Conservation
import NewsAggregator.Enrich.Consumer
import NewsAggregator.Enrich.Db
import NewsAggregator.Enrich.Filter
import NewsAggregator.Enrich.Flush
import NewsAggregator.Enrich.Flusher
import NewsAggregator.Enrich.Governor
import NewsAggregator.Enrich.Headroom
import NewsAggregator.Enrich.Inference
import NewsAggregator.Enrich.Isolation
import NewsAggregator.Enrich.Lossless
import NewsAggregator.Enrich.Mentions
import NewsAggregator.Enrich.ModelWatch
import NewsAggregator.Enrich.Redelivery
import NewsAggregator.Enrich.Replicas
import NewsAggregator.Enrich.Steady
import NewsAggregator.Foundation.Binning
import NewsAggregator.Foundation.Chaotic
import NewsAggregator.Foundation.Classes
import NewsAggregator.Foundation.Counter
import NewsAggregator.Foundation.Cutting
import NewsAggregator.Foundation.Discipline
import NewsAggregator.Foundation.Estimator
import NewsAggregator.Foundation.Fifo
import NewsAggregator.Foundation.FirstWins
import NewsAggregator.Foundation.Framing
import NewsAggregator.Foundation.Greedy
import NewsAggregator.Foundation.Informed
import NewsAggregator.Foundation.Interference
import NewsAggregator.Foundation.Joining
import NewsAggregator.Foundation.Json
import NewsAggregator.Foundation.LastGood
import NewsAggregator.Foundation.Limit
import NewsAggregator.Foundation.LongestMatch
import NewsAggregator.Foundation.Neighbors
import NewsAggregator.Foundation.Paging
import NewsAggregator.Foundation.Parts
import NewsAggregator.Foundation.Permit
import NewsAggregator.Foundation.Pool
import NewsAggregator.Foundation.Program
import NewsAggregator.Foundation.Raising
import NewsAggregator.Foundation.Rely
import NewsAggregator.Foundation.Resume
import NewsAggregator.Foundation.Rounding
import NewsAggregator.Foundation.Run
import NewsAggregator.Foundation.Segments
import NewsAggregator.Foundation.Subjects
import NewsAggregator.Foundation.Unicode
import NewsAggregator.Foundation.UnicodeParts
import NewsAggregator.Foundation.UnionFind
import NewsAggregator.Foundation.Upsert
import NewsAggregator.Gazetteer.Load
import NewsAggregator.Gazetteer.Matcher
import NewsAggregator.Gazetteer.Reference
import NewsAggregator.Ingest.Bluesky
import NewsAggregator.Ingest.BlueskyRun
import NewsAggregator.Ingest.Emission
import NewsAggregator.Ingest.Gdacs
import NewsAggregator.Ingest.Gdelt
import NewsAggregator.Ingest.Identity
import NewsAggregator.Ingest.Mastodon
import NewsAggregator.Ingest.MastodonRun
import NewsAggregator.Ingest.Noaa
import NewsAggregator.Ingest.Press
import NewsAggregator.Ingest.Publishable
import NewsAggregator.Ingest.Rss
import NewsAggregator.Ingest.Runner
import NewsAggregator.Ingest.Sink
import NewsAggregator.Ingest.Size
import NewsAggregator.Ingest.Sse
import NewsAggregator.Ingest.Total
import NewsAggregator.Ingest.Usgs
import NewsAggregator.Ingest.Value
import NewsAggregator.Ingest.Wikipedia
import NewsAggregator.Ingest.WikipediaRun
import NewsAggregator.Ner.Extract
import NewsAggregator.Ner.OnnxNer
import NewsAggregator.Ner.Runs
import NewsAggregator.Notify.Notifier
import NewsAggregator.Notify.Push
import NewsAggregator.Pipeline
import NewsAggregator.Python
import NewsAggregator.Retrain.Evalx
import NewsAggregator.Retrain.Labels
import NewsAggregator.Retrain.Retrainer
import NewsAggregator.Schema.Claim
import NewsAggregator.Schema.Contract
import NewsAggregator.Schema.Encoding
import NewsAggregator.Schema.Item
import NewsAggregator.Schema.Merge
import NewsAggregator.Schema.Partitions
import NewsAggregator.Schema.Story
import NewsAggregator.Schema.Tables
import NewsAggregator.Schema.Tally
import NewsAggregator.Score.Counting
import NewsAggregator.Score.Db
import NewsAggregator.Score.Feedback
import NewsAggregator.Score.Flags
import NewsAggregator.Score.Gating
import NewsAggregator.Score.Inauth
import NewsAggregator.Score.Scorer
import NewsAggregator.Score.Series
import NewsAggregator.Score.Settling
import NewsAggregator.Score.Social
import NewsAggregator.Score.Sync
import NewsAggregator.Score.Velocity
import NewsAggregator.Tokenize.Greedy
import NewsAggregator.Tokenize.Reference
import NewsAggregator.Tokenize.Spans
import NewsAggregator.Tokenize.Wordpiece
import NewsAggregator.Trust.AllPairs
import NewsAggregator.Trust.CanonicalUrl
import NewsAggregator.Trust.Edges
import NewsAggregator.Trust.Graph
import NewsAggregator.Trust.Growth
import NewsAggregator.Trust.Match
import NewsAggregator.Trust.Matching
import NewsAggregator.Trust.Origins
import NewsAggregator.Trust.Pipeline
import NewsAggregator.Trust.States
import NewsAggregator.Trust.Wire
import NewsAggregator.Urllib
import NewsAggregator.Writer.Db
import NewsAggregator.Writer.Placement
import NewsAggregator.Writer.Storing
import NewsAggregator.Writer.Wall
