/-!
The stylesheet that every package carries once.
-/

namespace Courseware.Page

def stylesheet : String := "/* coursepack shared stylesheet */

:root \x7b
  --cp-text: #1f2933;
  --cp-muted: #616e7c;
  --cp-accent: #2563eb;
  --cp-border: #d9e2ec;
  --cp-surface: #f5f7fa;
  --cp-correct: #15803d;
  --cp-incorrect: #b91c1c;
  --cp-width: 46rem;
\x7d

*,
*::before,
*::after \x7b
  box-sizing: border-box;
\x7d

body \x7b
  margin: 0;
  font-family: system-ui, -apple-system, \"Segoe UI\", Roboto, sans-serif;
  line-height: 1.6;
  color: var(--cp-text);
  background: #fff;
\x7d

a \x7b
  color: var(--cp-accent);
\x7d

.course-header,
.lesson-header \x7b
  max-width: var(--cp-width);
  margin: 0 auto;
  padding: 2rem 1.25rem 1rem;
\x7d

.module-title \x7b
  margin: 0;
  font-size: 0.85rem;
  text-transform: uppercase;
  letter-spacing: 0.05em;
  color: var(--cp-muted);
\x7d

.lesson-title,
.course-title \x7b
  margin: 0.25rem 0 0.5rem;
  line-height: 1.2;
\x7d

.lesson-description,
.course-description \x7b
  color: var(--cp-muted);
\x7d

main,
.lesson-content \x7b
  max-width: var(--cp-width);
  margin: 0 auto;
  padding: 0 1.25rem 2rem;
\x7d

.block \x7b
  margin: 1.25rem 0;
\x7d

.block img,
.block video \x7b
  max-width: 100%;
  height: auto;
\x7d

figure \x7b
  margin: 0;
\x7d

figcaption \x7b
  font-size: 0.9rem;
  color: var(--cp-muted);
\x7d

blockquote \x7b
  margin: 0;
  padding: 0.5rem 1rem;
  border-left: 4px solid var(--cp-border);
\x7d

blockquote cite \x7b
  display: block;
  margin-top: 0.5rem;
  color: var(--cp-muted);
\x7d

hr \x7b
  border: 0;
  border-top: 1px solid var(--cp-border);
\x7d

.placeholder \x7b
  padding: 0.75rem 1rem;
  border: 1px dashed var(--cp-border);
  color: var(--cp-muted);
  font-style: italic;
\x7d

/* Accordion */

.accordion-section \x7b
  border: 1px solid var(--cp-border);
  border-radius: 4px;
  margin-bottom: 0.5rem;
\x7d

.accordion-section summary \x7b
  cursor: pointer;
  padding: 0.5rem 0.75rem;
  font-weight: 600;
\x7d

.accordion-body \x7b
  padding: 0 0.75rem 0.75rem;
\x7d

/* Tabs */

.tab-list \x7b
  display: flex;
  gap: 0.25rem;
  border-bottom: 1px solid var(--cp-border);
\x7d

.tab \x7b
  padding: 0.4rem 0.8rem;
  text-decoration: none;
\x7d

.tab-panel \x7b
  display: none;
  padding: 0.75rem 0;
\x7d

.tab-panel:target,
.tabs:not(:has(.tab-panel:target)) .tab-panel:first-of-type \x7b
  display: block;
\x7d

/* Questions */

.question \x7b
  padding: 1rem;
  border: 1px solid var(--cp-border);
  border-radius: 6px;
  background: var(--cp-surface);
\x7d

.question-text \x7b
  font-weight: 600;
\x7d

.choices \x7b
  list-style: none;
  padding: 0;
\x7d

.choice,
.check-answer,
.button \x7b
  display: inline-block;
  margin: 0.25rem 0;
  padding: 0.45rem 0.9rem;
  border: 1px solid var(--cp-border);
  border-radius: 4px;
  background: #fff;
  color: var(--cp-text);
  font: inherit;
  cursor: pointer;
  text-decoration: none;
\x7d

.choice:hover,
.check-answer:hover,
.button:hover \x7b
  border-color: var(--cp-accent);
\x7d

.blank-input \x7b
  margin-left: 0.5rem;
  padding: 0.35rem 0.5rem;
  border: 1px solid var(--cp-border);
  border-radius: 4px;
  font: inherit;
\x7d

.feedback \x7b
  margin-top: 0.5rem;
  font-weight: 600;
\x7d

.feedback.is-correct \x7b
  color: var(--cp-correct);
\x7d

.feedback.is-incorrect \x7b
  color: var(--cp-incorrect);
\x7d

.explanation \x7b
  margin-top: 0.5rem;
  color: var(--cp-muted);
\x7d

/* Course index and navigation */

.course-outline \x7b
  list-style: none;
  padding: 0;
\x7d

.course-outline > li \x7b
  margin-bottom: 1.5rem;
\x7d

.lesson-list \x7b
  padding-left: 1.25rem;
\x7d

.lesson-list a.visited::after \x7b
  content: \" \\2713\";
  color: var(--cp-correct);
\x7d

.progress \x7b
  height: 0.5rem;
  border-radius: 4px;
  background: var(--cp-border);
  overflow: hidden;
\x7d

.progress-bar \x7b
  height: 100%;
  width: 0;
  background: var(--cp-accent);
  transition: width 0.2s ease;
\x7d

.lesson-nav \x7b
  display: flex;
  justify-content: space-between;
  gap: 1rem;
  max-width: var(--cp-width);
  margin: 0 auto;
  padding: 1rem 1.25rem 2rem;
  border-top: 1px solid var(--cp-border);
\x7d

.resources ul \x7b
  padding-left: 1.25rem;
\x7d

/* Launcher frame (SCORM) */

body.launcher \x7b
  height: 100vh;
  overflow: hidden;
\x7d

.lesson-frame \x7b
  display: block;
  width: 100%;
  height: 100vh;
  border: 0;
\x7d
"

end Courseware.Page
